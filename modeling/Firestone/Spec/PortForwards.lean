import Firestone.Spec.Values

/-!
# The grammar of port forwards

A port forward is written `[tcp:|udp:][BIND:]HOST:GUEST`. The grammar is stated here as relations between a text and the
value that it stands for, and the reader is shown to accept exactly the texts of the grammar.

* `PortText`, `RangeText`, `BindText`, `ProtocolText`, `PortForwardText` — the grammar.
* `parsePortRange_iff`, `parsePrefix_iff` — the parts of the reader.
* `PortForward.fromStr_exact` — what is accepted, and that a printed forward is read back.

Neither a port nor a range has a colon, so the last two colons of a text end the bind address and the host ports even when
the address is an IPv6 one without brackets.
-/

namespace Firestone

open Firestone.Lib

/-! ## The grammar -/

/-- Decimal digits for a port from 1 on. -/
structure PortText (text : List Char) (port : UInt16) : Prop where
  nonempty : text ≠ []
  digits : ∀ c ∈ text, c.isDigit = true
  value : Nat.ofDigitChars 10 text 0 = port.toNat
  ne_zero : port ≠ 0

/-- A single port, or the first and the last port of an ascending range. -/
inductive RangeText : List Char → PortRange → Prop
  | single {text range} : PortText text range.start → range.start = range.stop → RangeText text range
  | pair {first last range} : PortText first range.start → PortText last range.stop →
      RangeText (first ++ '-' :: last) range

/-- An address, in brackets or not when it is an IPv6 one. -/
inductive BindText : List Char → IpAddr → Prop
  | plain {text address} : IpAddr.fromStr (String.ofList text) = some address → BindText text address
  | bracketed {text segments} : IpAddr.fromStr (String.ofList text) = some (.v6 segments) →
      BindText ('[' :: (text ++ [']'])) (.v6 segments)

/-- TCP need not be named. -/
inductive ProtocolText : List Char → Protocol → Prop
  | absent : ProtocolText [] .tcp
  | tcp : ProtocolText "tcp:".toList .tcp
  | udp : ProtocolText "udp:".toList .udp

inductive OptionalBindText : List Char → Option IpAddr → Prop
  | absent : OptionalBindText [] none
  | bind {text address} : BindText text address → OptionalBindText (text ++ [':']) (some address)

inductive PortForwardText : List Char → PortForward → Prop
  | forward {protocol bind host guest forward} : ProtocolText protocol forward.protocol →
      OptionalBindText bind forward.bind → RangeText host forward.host → RangeText guest forward.guest →
      PortForwardText (protocol ++ bind ++ host ++ ':' :: guest) forward

/-! ## Ports -/

theorem parseDigits_iff {bound n : Nat} {text : List Char} :
    parseDigits bound text = some n ↔
      text ≠ [] ∧ (∀ c ∈ text, c.isDigit = true) ∧ Nat.ofDigitChars 10 text 0 = n ∧ n < bound := by
  unfold parseDigits
  constructor
  · intro h
    split at h
    · rename_i htext
      simp only [Option.ite_none_right_eq_some, Option.some.injEq] at h
      obtain ⟨hlt, rfl⟩ := h
      exact ⟨htext.1, List.all_eq_true.mp htext.2, rfl, hlt⟩
    · cases h
  · rintro ⟨hne, hdigits, rfl, hlt⟩
    rw [if_pos ⟨hne, List.all_eq_true.mpr hdigits⟩]
    exact if_pos hlt

theorem parsePort_iff {value component original : String} {port : { p : UInt16 // p ≠ 0 }} :
    parsePort value component original = .ok port ↔ PortText value.toList port.val := by
  unfold parsePort
  constructor
  · intro h
    split at h
    · cases h
    · rename_i n hn
      split at h
      · rename_i hport
        cases h
        obtain ⟨hne, hdigits, hvalue, -⟩ := parseDigits_iff.mp hn
        refine ⟨hne, hdigits, ?_, hport.2⟩
        rw [hvalue, UInt16.toNat_ofNat', Nat.mod_eq_of_lt hport.1]
      · cases h
  · rintro ⟨hne, hdigits, hvalue, hzero⟩
    have hlt : port.val.toNat < 2 ^ 16 := port.val.toNat_lt
    have hparse : parseDigits (2 ^ 32) value.toList = some port.val.toNat :=
      parseDigits_iff.mpr ⟨hne, hdigits, hvalue, Nat.lt_trans hlt (by decide)⟩
    simp only [hparse, UInt16.ofNat_toNat, dif_pos (And.intro hlt hzero)]

theorem PortText.notMem {text : List Char} {port : UInt16} (h : PortText text port) {c : Char} (hc : c.isDigit = false) :
    c ∉ text := by
  intro hmem
  rw [h.digits c hmem] at hc
  cases hc

theorem RangeText.notMem_colon {text : List Char} {range : PortRange} (h : RangeText text range) : ':' ∉ text := by
  cases h with
  | single hport _ => exact hport.notMem (by decide)
  | pair hfirst hlast =>
    simp only [List.mem_append, List.mem_cons, not_or]
    exact ⟨hfirst.notMem (by decide), by decide, hlast.notMem (by decide)⟩

/-- Both ports of a range are read, whatever the text was split at. -/
theorem parsePortRange_ok {value component a b : String} {range : PortRange}
    (hsplit : (splitOnce '-' value).getD (value, value) = (a, b)) :
    parsePortRange value component = .ok range ↔ PortText a.toList range.start ∧ PortText b.toList range.stop := by
  rw [parsePortRange, hsplit]
  constructor
  · intro h
    cases hstart : parsePort a component value with
    | error e =>
      simp only [bind, Except.bind, hstart] at h
      cases h
    | ok start =>
      cases hstop : parsePort b component value with
      | error e =>
        simp only [bind, Except.bind, hstart, hstop] at h
        cases h
      | ok stop =>
        simp only [bind, Except.bind, hstart, hstop] at h
        split at h
        · cases h
          exact ⟨parsePort_iff.mp hstart, parsePort_iff.mp hstop⟩
        · cases h
  · rintro ⟨hstart, hstop⟩
    have hstart' := (@parsePort_iff a component value ⟨_, range.start_ne_zero⟩).mpr hstart
    have hstop' := (@parsePort_iff b component value ⟨_, range.stop_ne_zero⟩).mpr hstop
    simp only [bind, Except.bind, hstart', hstop', dif_pos range.start_le_stop]

theorem PortText.unique {text : List Char} {port port' : UInt16} (h : PortText text port) (h' : PortText text port') :
    port = port' := UInt16.toNat_inj.mp (h.value.symm.trans h'.value)

theorem parsePortRange_iff {value component : String} {range : PortRange} :
    parsePortRange value component = .ok range ↔ RangeText value.toList range := by
  by_cases hdash : '-' ∈ value.toList
  · obtain ⟨⟨a, b⟩, hsplit⟩ : ∃ parts, splitOnce '-' value = some parts := ⟨_, if_pos hdash⟩
    have hvalue := eq_of_splitOnce hsplit
    rw [parsePortRange_ok (by rw [hsplit, Option.getD_some]), hvalue]
    constructor
    · rintro ⟨hstart, hstop⟩
      exact .pair hstart hstop
    · intro h
      generalize htext : a.toList ++ '-' :: b.toList = text at h
      cases h with
      | single hport _ =>
        refine absurd ?_ (hport.notMem (c := '-') (by decide))
        rw [← htext]
        simp
      | pair hfirst hlast =>
        rename_i first last
        -- the first dash is the same in both
        have hsame : splitOnce '-' value = some (String.ofList first, String.ofList last) := by
          rw [← String.ofList_toList (s := value), hvalue, htext]
          exact splitOnce_append (hfirst.notMem (by decide))
        rw [hsplit] at hsame
        cases hsame
        rw [String.toList_ofList, String.toList_ofList]
        exact ⟨hfirst, hlast⟩
  · rw [parsePortRange_ok (by rw [splitOnce_none hdash, Option.getD_none])]
    constructor
    · rintro ⟨hstart, hstop⟩
      exact .single hstart (hstart.unique hstop)
    · intro h
      generalize value.toList = text at h hdash
      cases h with
      | single hport heq => exact ⟨hport, heq ▸ hport⟩
      | pair _ _ => simp at hdash

/-! ## What comes before the ports -/

theorem IpAddr.isAddressChar_of_fromStr {value : String} {address : IpAddr} (h : IpAddr.fromStr value = some address) :
    ∀ c ∈ value.toList, IsAddressChar c := by
  unfold fromStr at h
  split at h
  · rename_i hread
    split at h
    · rename_i hrest
      exact Reads.all (hrest ▸ readV4_reads hread)
    · cases h
  · split at h
    · rename_i hread
      split at h
      · rename_i hrest
        exact Reads.all (hrest ▸ readV6_reads hread)
      · cases h
    · cases h

theorem parseBind_iff {value : String} {address : IpAddr} :
    parseBind value = .ok address ↔ BindText value.toList address := by
  unfold parseBind
  constructor
  · intro h
    split at h
    · rename_i hbrackets
      split at h
      · rename_i segments hread
        cases h
        have htext : value.toList = '[' :: (value.toList.tail.dropLast ++ [']']) := by
          rw [List.dropLast_append_getLast? _ hbrackets.2]
          exact (List.cons_head?_tail hbrackets.1).symm
        rw [htext]
        exact .bracketed hread
      · cases h
    · split at h
      · cases h
      · split at h
        · rename_i hread
          cases h
          exact .plain (by rw [String.ofList_toList]; exact hread)
        · cases h
  · intro h
    generalize htext : value.toList = text at h
    cases h with
    | plain hread =>
      have hchars := IpAddr.isAddressChar_of_fromStr hread
      rw [String.toList_ofList] at hchars
      have hopen : '[' ∉ text := fun h => absurd (hchars _ h) (by decide)
      have hclose : ']' ∉ text := fun h => absurd (hchars _ h) (by decide)
      have hhead : text.head? ≠ some '[' := fun h => hopen (List.mem_of_mem_head? h)
      rw [if_neg (fun h => hhead h.1), if_neg (by simp [hopen, hclose]), ← String.ofList_toList (s := value), htext, hread]
    | bracketed hread => simp [hread]

theorem BindText.head {text : List Char} {address : IpAddr} (h : BindText text address) {c : Char}
    (hc : text.head? = some c) : c ≠ 't' ∧ c ≠ 'u' := by
  cases h with
  | plain hread =>
    have haddress := IpAddr.isAddressChar_of_fromStr hread c (by
      rw [String.toList_ofList]
      exact List.mem_of_mem_head? hc)
    constructor <;> (rintro rfl; revert haddress; decide)
  | bracketed _ =>
    cases hc
    decide

/-- What comes before the ports, with its last colon. -/
def prefixText (start : Option String) : List Char := (start.map (·.toList ++ [':'])).getD []

theorem eq_of_prefixText {start : String} {text : List Char} (h : prefixText (some start) = text ++ [':']) :
    start = String.ofList text := by
  refine String.toList_inj.mp ?_
  rw [String.toList_ofList]
  exact List.append_cancel_right h

theorem stripPrefix_append (start : String) (text : List Char) :
    stripPrefix start (String.ofList (start.toList ++ text)) = some (String.ofList text) := by
  rw [stripPrefix, String.toList_ofList, if_pos (List.prefix_append _ _), List.drop_left]

theorem eq_of_stripPrefix {start s rest : String} (h : stripPrefix start s = some rest) :
    s.toList = start.toList ++ rest.toList := by
  unfold stripPrefix at h
  split at h
  · rename_i hprefix
    cases h
    rw [String.toList_ofList]
    exact (List.prefix_iff_eq_append.mp hprefix).symm
  · cases h

/-- The grammar accepts whatever the reader accepts before the ports. -/
theorem prefixText_of_parsePrefix {start : Option String} {protocol : Protocol} {bind : Option IpAddr}
    (h : parsePrefix start = .ok (protocol, bind)) :
    ∃ p b, ProtocolText p protocol ∧ OptionalBindText b bind ∧ prefixText start = p ++ b := by
  cases start with
  | none =>
    cases h
    exact ⟨[], [], .absent, .absent, rfl⟩
  | some start =>
    unfold parsePrefix at h
    dsimp only at h
    split at h
    · rename_i hstart
      cases h
      subst hstart
      exact ⟨_, [], .tcp, .absent, rfl⟩
    · split at h
      · rename_i hstart
        cases h
        subst hstart
        exact ⟨_, [], .udp, .absent, rfl⟩
      · -- the protocol is stripped, and the rest is a bind address
        have hbind : ∀ {p : List Char} {q : Protocol} {value : String}, ProtocolText p q → start.toList = p ++ value.toList →
            ∀ {address : IpAddr}, parseBind value = .ok address →
            ∃ p b, ProtocolText p q ∧ OptionalBindText b (some address) ∧ prefixText (some start) = p ++ b := by
          intro p q value hp hstart address haddress
          refine ⟨p, value.toList ++ [':'], hp, .bind (parseBind_iff.mp haddress), ?_⟩
          change start.toList ++ [':'] = _
          rw [hstart, List.append_assoc]
        cases htcp : stripPrefix "tcp:" start with
        | some rest =>
          rw [htcp] at h
          dsimp only at h
          split at h
          · rename_i haddress
            cases h
            exact hbind .tcp (eq_of_stripPrefix htcp) haddress
          · split at h <;> cases h
        | none =>
          rw [htcp] at h
          cases hudp : stripPrefix "udp:" start with
          | some rest =>
            rw [hudp] at h
            dsimp only at h
            split at h
            · rename_i haddress
              cases h
              exact hbind .udp (eq_of_stripPrefix hudp) haddress
            · split at h <;> cases h
          | none =>
            rw [hudp] at h
            dsimp only at h
            split at h
            · rename_i haddress
              cases h
              exact hbind .absent rfl haddress
            · split at h <;> cases h

theorem parsePrefix_of_bindText {text p : List Char} {address : IpAddr} {protocol : Protocol} (hbind : BindText text address)
    (hprotocol : ProtocolText p protocol) :
    parsePrefix (some (String.ofList (p ++ text))) = .ok (protocol, some address) := by
  have hparse : parseBind (String.ofList text) = .ok address :=
    parseBind_iff.mpr (by rw [String.toList_ofList]; exact hbind)
  have hlength : ∀ {name : String} {p : List Char}, name.toList.length = 3 → p.length = 4 →
      String.ofList (p ++ text) ≠ name := by
    rintro name p hname hp rfl
    rw [String.toList_ofList, List.length_append] at hname
    omega
  cases hprotocol with
  | absent =>
    rw [List.nil_append]
    exact parsePrefix_absent (fun _ hc => hbind.head hc) hparse
  | tcp =>
    rw [parsePrefix, if_neg (hlength rfl rfl), if_neg (hlength rfl rfl), stripPrefix_append]
    simp only [hparse]
  | udp =>
    have htcp : stripPrefix "tcp:" (String.ofList ("udp:".toList ++ text)) = none :=
      stripPrefix_eq_none (c := 't') rfl (by simp)
    rw [parsePrefix, if_neg (hlength rfl rfl), if_neg (hlength rfl rfl), htcp, stripPrefix_append]
    simp only [hparse]

theorem parsePrefix_iff {start : Option String} {protocol : Protocol} {bind : Option IpAddr} :
    parsePrefix start = .ok (protocol, bind) ↔
      ∃ p b, ProtocolText p protocol ∧ OptionalBindText b bind ∧ prefixText start = p ++ b := by
  refine ⟨prefixText_of_parsePrefix, ?_⟩
  rintro ⟨p, b, hprotocol, hbind, htext⟩
  cases hbind with
  | bind hbind =>
    rw [← List.append_assoc] at htext
    cases start with
    | none => simp [prefixText] at htext
    | some start =>
      rw [eq_of_prefixText htext]
      exact parsePrefix_of_bindText hbind hprotocol
  | absent =>
    rw [List.append_nil] at htext
    cases hprotocol with
    | absent =>
      cases start with
      | none => rfl
      | some start => simp [prefixText] at htext
    | tcp =>
      cases start with
      | none => simp [prefixText] at htext
      | some start =>
        obtain rfl : start = "tcp" := @eq_of_prefixText _ "tcp".toList htext
        rfl
    | udp =>
      cases start with
      | none => simp [prefixText] at htext
      | some start =>
        obtain rfl : start = "udp" := @eq_of_prefixText _ "udp".toList htext
        rfl

/-! ## Forwards -/

theorem PortForward.new_iff {protocol : Protocol} {bind : Option IpAddr} {host guest : PortRange} {forward : PortForward} :
    PortForward.new protocol bind host guest = .ok forward ↔
      forward.protocol = protocol ∧ forward.bind = bind ∧ forward.host = host ∧ forward.guest = guest := by
  unfold PortForward.new
  constructor
  · intro h
    split at h
    · cases h
      exact ⟨rfl, rfl, rfl, rfl⟩
    · cases h
  · rintro ⟨rfl, rfl, rfl, rfl⟩
    rw [dif_pos forward.len_eq]

/-- The parts of a forward are read one by one. -/
theorem PortForward.fromStr_ok {start : Option String} {hostValue guestValue : String} {forward : PortForward} :
    ((do
      let host ← parsePortRange hostValue "host"
      let guest ← parsePortRange guestValue "guest"
      let (protocol, bind) ← parsePrefix start
      PortForward.new protocol bind host guest) : Except ParsePortForwardError PortForward) = .ok forward ↔
      RangeText hostValue.toList forward.host ∧ RangeText guestValue.toList forward.guest ∧
      ∃ p b, ProtocolText p forward.protocol ∧ OptionalBindText b forward.bind ∧ prefixText start = p ++ b := by
  rw [← @parsePortRange_iff _ "host", ← @parsePortRange_iff _ "guest", ← parsePrefix_iff]
  constructor
  · intro h
    cases hhost : parsePortRange hostValue "host" with
    | error e =>
      rw [hhost] at h
      cases h
    | ok host =>
      cases hguest : parsePortRange guestValue "guest" with
      | error e =>
        rw [hhost, hguest] at h
        cases h
      | ok guest =>
        cases hprefix : parsePrefix start with
        | error e =>
          rw [hhost, hguest, hprefix] at h
          cases h
        | ok x =>
          rw [hhost, hguest, hprefix] at h
          obtain ⟨hp, hb, rfl, rfl⟩ := PortForward.new_iff.mp h
          exact ⟨rfl, rfl, by rw [hp, hb]⟩
  · rintro ⟨hhost, hguest, hprefix⟩
    rw [hhost, hguest, hprefix]
    exact PortForward.new_iff.mpr ⟨rfl, rfl, rfl, rfl⟩

/-- What stands before the ports ends in a colon, or there is nothing. -/
theorem exists_prefixText {p b : List Char} {protocol : Protocol} {bind : Option IpAddr} (hp : ProtocolText p protocol)
    (hb : OptionalBindText b bind) : ∃ start, prefixText start = p ++ b := by
  cases hb with
  | absent =>
    cases hp with
    | absent => exact ⟨none, rfl⟩
    | tcp => exact ⟨some "tcp", rfl⟩
    | udp => exact ⟨some "udp", rfl⟩
  | bind _ =>
    rename_i text address _
    refine ⟨some (String.ofList (p ++ text)), ?_⟩
    rw [prefixText, Option.map_some, Option.getD_some, String.toList_ofList, List.append_assoc]

/-- The reader accepts the texts of the grammar, with the forward that each stands for. -/
theorem PortForward.fromStr_iff {value : String} {forward : PortForward} :
    PortForward.fromStr value = .ok forward ↔ PortForwardText value.toList forward := by
  constructor
  · intro h
    unfold fromStr at h
    split at h
    · cases h
    · rename_i beforeGuest guestValue hlast
      have hvalue := eq_of_rsplitOnceChar hlast
      split at h
      rename_i start hostValue hsplit
      obtain ⟨hhost, hguest, p, b, hp, hb, htext⟩ := fromStr_ok.mp h
      have hbefore : beforeGuest.toList = p ++ b ++ hostValue.toList := by
        rw [← htext]
        split at hsplit
        · rename_i hfirst
          cases hsplit
          rw [eq_of_rsplitOnceChar hfirst]
          simp [prefixText]
        · cases hsplit
          rfl
      rw [hvalue, hbefore]
      exact .forward hp hb hhost hguest
  · intro h
    generalize htext : value.toList = text at h
    cases h with
    | forward hp hb hhost hguest =>
      rename_i p b host guest
      obtain ⟨start, hstart⟩ := exists_prefixText hp hb
      have hvalue : value = String.ofList ((p ++ b ++ host) ++ ':' :: guest) := by
        rw [← htext, String.ofList_toList]
      have hparts := (@fromStr_ok start (String.ofList host) (String.ofList guest) forward).mpr
        ⟨by rwa [String.toList_ofList], by rwa [String.toList_ofList], p, b, hp, hb, hstart⟩
      rw [fromStr, hvalue, rsplitOnceChar_append hguest.notMem_colon, ← hstart]
      cases start with
      | none =>
        have hnone : rsplitOnceChar ':' (String.ofList host) = none :=
          rsplitOnceChar_none (by rw [String.toList_ofList]; exact hhost.notMem_colon)
        simp only [prefixText, Option.map_none, Option.getD_none, List.nil_append, hnone]
        exact hparts
      | some start =>
        have hsome : rsplitOnceChar ':' (String.ofList (prefixText (some start) ++ host)) =
            some (start, String.ofList host) := by
          have h := rsplitOnceChar_append (s := start.toList) hhost.notMem_colon
          rw [String.ofList_toList] at h
          rw [← h, prefixText, Option.map_some, Option.getD_some, List.append_assoc]
          rfl
        simp only [hsome]
        exact hparts

/-- **A printed forward is read back, and what is read is what the grammar describes.** -/
theorem PortForward.fromStr_exact :
    (∀ forward : PortForward, PortForward.fromStr forward.display = .ok forward) ∧
    (∀ (value : String) (forward : PortForward),
      PortForward.fromStr value = .ok forward ↔ PortForwardText value.toList forward) :=
  ⟨PortForward.fromStr_display, fun _ _ => PortForward.fromStr_iff⟩

end Firestone
