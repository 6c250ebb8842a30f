import Firestone.Guest.DhcpReply
import Firestone.Lib.OnesComplement

/-!
# IPv4 and UDP framing

The DHCP client of the guest's first process makes the IPv4 and UDP headers of its packets and takes those of others apart.

* `ipv4UdpDatagram`, `parseIpv4Udp` — the writer and the reader.
* `parseIpv4Udp_datagram` — what was written is read back, whatever padding follows.
* `wordSum_header` — the words of a header that was written make a sum of ones.
* `parseIpv4Udp_eq_none` — which inputs are skipped.
* `datagrams_and_fragments` — the round trip, and which fragments are skipped.
-/

namespace Firestone.Guest

open Firestone.Lib

def protoUdp : UInt8 := 17
def ipv4HeaderLen : Nat := 20
def udpHeaderLen : Nat := 8

def Ipv4.bytes (address : Ipv4) : Bytes := [address.a, address.b, address.c, address.d]

/-! ## The writer -/

/-- The sum of 32 bits does not overflow: a header has ten words. -/
def onesComplementChecksum (bytes : Bytes) : Nat := 65535 - endAround (wordSum bytes)

/-- The IPv4 header of a datagram before its checksum is known. -/
def ipv4Header (source destination : Ipv4) (identification : UInt16) (total : Nat) : Bytes :=
  [0x45, 0x00] ++ u16ToBeBytes total ++ u16ToBeBytes identification.toNat ++ u16ToBeBytes 0 ++ [64, protoUdp] ++
    u16ToBeBytes 0 ++ source.bytes ++ destination.bytes

def ipv4UdpDatagram (source destination : Ipv4) (sourcePort destinationPort identification : UInt16) (payload : Bytes) :
    Bytes :=
  let total := ipv4HeaderLen + udpHeaderLen + payload.length
  let header := ipv4Header source destination identification total
  let checksum := onesComplementChecksum header
  header.take 10 ++ u16ToBeBytes checksum ++ header.drop 12 ++
    u16ToBeBytes sourcePort.toNat ++ u16ToBeBytes destinationPort.toNat ++
    u16ToBeBytes (udpHeaderLen + payload.length) ++ u16ToBeBytes 0 ++ payload

/-! ## The reader -/

structure UdpDatagram where
  source : Ipv4
  destinationPort : UInt16
  payload : Bytes
  deriving DecidableEq, Repr

/-- `parse_ipv4_udp`, with checked reads. -/
def parseIpv4Udp (bytes : Bytes) : Checked (Option UdpDatagram) :=
  if bytes.length < ipv4HeaderLen then return none
  else do
    let first ← readAt bytes 0
    if first >>> 4 ≠ 4 then return none
    else do
      let headerLen := (first &&& 0x0f).toNat * 4
      if headerLen < ipv4HeaderLen ∨ bytes.length < headerLen + udpHeaderLen then return none
      else if (← readAt bytes 9) ≠ protoUdp then return none
      else do
        let fragment := u16FromBeBytes (← readAt bytes 6) (← readAt bytes 7)
        if fragment &&& 0x1fff ≠ 0 then return none
        else do
          let totalLen := u16FromBeBytes (← readAt bytes 2) (← readAt bytes 3)
          let available := min totalLen bytes.length
          match getRange bytes headerLen available with
          | none => return none
          | some udp =>
            if udp.length < udpHeaderLen then return none
            else do
              let udpLen := max (u16FromBeBytes (← readAt udp 4) (← readAt udp 5)) udpHeaderLen
              match getRange udp udpHeaderLen (min udpLen udp.length) with
              | none => return none
              | some payload => do
                let source : Ipv4 := ⟨← readAt bytes 12, ← readAt bytes 13, ← readAt bytes 14, ← readAt bytes 15⟩
                let destinationPort := UInt16.ofNat (u16FromBeBytes (← readAt udp 2) (← readAt udp 3))
                return some { source, destinationPort, payload }

/-! ## What is read -/

def byteAt (bytes : Bytes) (index : Nat) : UInt8 := bytes.getD index 0

def headerLength (bytes : Bytes) : Nat := (byteAt bytes 0 &&& 0x0f).toNat * 4

def totalLength (bytes : Bytes) : Nat := u16FromBeBytes (byteAt bytes 2) (byteAt bytes 3)

/-- The flags and the offset of a fragment. -/
def fragmentField (bytes : Bytes) : Nat := u16FromBeBytes (byteAt bytes 6) (byteAt bytes 7)

/-- The part of a datagram after its IPv4 header. -/
def udpOf (bytes : Bytes) : Bytes := (bytes.take (min (totalLength bytes) bytes.length)).drop (headerLength bytes)

/-- A UDP datagram, but for the flags and the offset of a fragment. -/
structure WellFormed (bytes : Bytes) : Prop where
  long : ipv4HeaderLen ≤ bytes.length
  version : byteAt bytes 0 >>> 4 = 4
  header : ipv4HeaderLen ≤ headerLength bytes
  udp : headerLength bytes + udpHeaderLen ≤ bytes.length
  protocol : byteAt bytes 9 = protoUdp
  total : headerLength bytes + udpHeaderLen ≤ totalLength bytes

/-- What a datagram says. -/
def datagramOf (bytes : Bytes) : UdpDatagram :=
  let udp := udpOf bytes
  { source := ⟨byteAt bytes 12, byteAt bytes 13, byteAt bytes 14, byteAt bytes 15⟩
    destinationPort := UInt16.ofNat (u16FromBeBytes (byteAt udp 2) (byteAt udp 3))
    payload := (udp.take (min (max (u16FromBeBytes (byteAt udp 4) (byteAt udp 5)) udpHeaderLen) udp.length)).drop udpHeaderLen }

/-- A well-formed datagram with offset zero is read, and everything else is skipped. -/
theorem parseIpv4Udp_eq (bytes : Bytes) :
    (WellFormed bytes ∧ fragmentField bytes &&& 0x1fff = 0 → parseIpv4Udp bytes = .ok (some (datagramOf bytes))) ∧
      (¬ (WellFormed bytes ∧ fragmentField bytes &&& 0x1fff = 0) → parseIpv4Udp bytes = .ok none) := by
  unfold parseIpv4Udp
  by_cases hlong : bytes.length < ipv4HeaderLen
  · rw [if_pos hlong]
    exact ⟨fun h => absurd h.1.long (by omega), fun _ => rfl⟩
  have hread : ∀ index < 20, readAt bytes index = .ok (byteAt bytes index) :=
    fun index hindex => readAt_eq_getD 0 (by rw [ipv4HeaderLen] at hlong; omega)
  simp only [if_neg hlong, hread 0 (by omega), hread 2 (by omega), hread 3 (by omega), hread 6 (by omega), hread 7 (by omega),
    hread 9 (by omega), hread 12 (by omega), hread 13 (by omega), hread 14 (by omega), hread 15 (by omega),
    bind, Except.bind, pure, Except.pure]
  by_cases hversion : byteAt bytes 0 >>> 4 ≠ 4
  · rw [if_pos hversion]
    exact ⟨fun h => absurd h.1.version hversion, fun _ => rfl⟩
  rw [if_neg hversion, ← headerLength]
  by_cases hheader : headerLength bytes < ipv4HeaderLen ∨ bytes.length < headerLength bytes + udpHeaderLen
  · rw [if_pos hheader]
    refine ⟨fun h => ?_, fun _ => rfl⟩
    have hlow := h.1.header
    have hhigh := h.1.udp
    omega
  rw [if_neg hheader]
  by_cases hprotocol : byteAt bytes 9 ≠ protoUdp
  · rw [if_pos hprotocol]
    exact ⟨fun h => absurd h.1.protocol hprotocol, fun _ => rfl⟩
  rw [if_neg hprotocol, ← fragmentField]
  by_cases hoffset : fragmentField bytes &&& 0x1fff ≠ 0
  · rw [if_pos hoffset]
    exact ⟨fun h => absurd h.2 hoffset, fun _ => rfl⟩
  rw [if_neg hoffset, ← totalLength]
  rw [not_or] at hheader
  by_cases hrange : headerLength bytes ≤ min (totalLength bytes) bytes.length
  · have hget : getRange bytes (headerLength bytes) (min (totalLength bytes) bytes.length) = some (udpOf bytes) := by
      rw [getRange, if_pos ⟨hrange, Nat.min_le_right _ _⟩]
      rfl
    have hlength : (udpOf bytes).length = min (totalLength bytes) bytes.length - headerLength bytes := by
      rw [udpOf, List.length_drop, List.length_take]
      omega
    rw [hget]
    dsimp only
    by_cases hudp : (udpOf bytes).length < udpHeaderLen
    · rw [if_pos hudp]
      refine ⟨fun h => ?_, fun _ => rfl⟩
      have htotal := h.1.total
      have hlen := h.1.udp
      omega
    have hread' : ∀ index < 8, readAt (udpOf bytes) index = .ok (byteAt (udpOf bytes) index) :=
      fun index hindex => readAt_eq_getD 0 (by rw [udpHeaderLen] at hudp; omega)
    have hwell : WellFormed bytes := ⟨by omega, not_not.mp hversion, by omega, by omega, not_not.mp hprotocol, by omega⟩
    refine ⟨fun _ => ?_, fun h => absurd ⟨hwell, not_not.mp hoffset⟩ h⟩
    simp only [if_neg hudp, hread' 2 (by omega), hread' 3 (by omega), hread' 4 (by omega), hread' 5 (by omega)]
    rw [getRange, if_pos ⟨by omega, Nat.min_le_right _ _⟩]
    rfl
  · have hget : getRange bytes (headerLength bytes) (min (totalLength bytes) bytes.length) = none := by
      rw [getRange, if_neg fun h => hrange h.1]
    rw [hget]
    refine ⟨fun h => ?_, fun _ => rfl⟩
    have htotal := h.1.total
    have hlen := h.1.udp
    omega

/-! ## The round trip -/

section RoundTrip

variable (source destination : Ipv4) (sourcePort destinationPort identification : UInt16) (payload padding : Bytes)

/-- The UDP header and the payload. -/
def udpPart : Bytes :=
  u16ToBeBytes sourcePort.toNat ++ u16ToBeBytes destinationPort.toNat ++ u16ToBeBytes (udpHeaderLen + payload.length) ++
    u16ToBeBytes 0 ++ payload

/-- The header of a datagram with its checksum. -/
def headerPart (total checksum : Nat) : Bytes :=
  [0x45, 0x00] ++ u16ToBeBytes total ++ u16ToBeBytes identification.toNat ++ u16ToBeBytes 0 ++ [64, protoUdp] ++
    u16ToBeBytes checksum ++ source.bytes ++ destination.bytes

theorem ipv4UdpDatagram_eq : ipv4UdpDatagram source destination sourcePort destinationPort identification payload =
    headerPart source destination identification (ipv4HeaderLen + udpHeaderLen + payload.length)
      (onesComplementChecksum (ipv4Header source destination identification
        (ipv4HeaderLen + udpHeaderLen + payload.length))) ++ udpPart sourcePort destinationPort payload := by
  simp [ipv4UdpDatagram, ipv4Header, headerPart, udpPart, u16ToBeBytes, Ipv4.bytes]

variable (total checksum : Nat)

theorem length_headerPart : (headerPart source destination identification total checksum).length = ipv4HeaderLen := rfl

theorem length_udpPart : (udpPart sourcePort destinationPort payload).length = udpHeaderLen + payload.length := by
  simp only [udpPart, u16ToBeBytes, List.length_append, List.length_cons, List.length_nil, udpHeaderLen]

/-- The checksum is one of the words of the header. -/
theorem wordSum_headerPart : wordSum (headerPart source destination identification total checksum) =
    wordSum (ipv4Header source destination identification total) + checksum % 65536 := by
  simp only [headerPart, ipv4Header, u16ToBeBytes, Ipv4.bytes, List.cons_append, List.nil_append, wordSum,
    u16FromBeBytes_ofNat]
  omega

theorem wordSum_ipv4Header_pos : 0 < wordSum (ipv4Header source destination identification total) := by
  have hfirst : u16FromBeBytes 0x45 0x00 = 17664 := by decide
  simp only [ipv4Header, u16ToBeBytes, Ipv4.bytes, List.cons_append, List.nil_append, wordSum, hfirst]
  omega

/-- **The words of a header that was written make a sum of ones.** -/
theorem wordSum_header : endAround (wordSum ((ipv4UdpDatagram source destination sourcePort destinationPort identification
    payload).take ipv4HeaderLen)) = 0xffff := by
  rw [ipv4UdpDatagram_eq, List.take_left' (length_headerPart _ _ _ _ _), wordSum_headerPart]
  generalize htotal : ipv4HeaderLen + udpHeaderLen + payload.length = total
  have hpos := wordSum_ipv4Header_pos source destination identification total
  have hsmall : onesComplementChecksum (ipv4Header source destination identification total) % 65536 =
      65535 - endAround (wordSum (ipv4Header source destination identification total)) := by
    rw [onesComplementChecksum]
    omega
  rw [hsmall]
  exact endAround_add_complement hpos

/-- The fields of a header, whatever follows it. -/
theorem header_fields (rest : Bytes) :
    let bytes := headerPart source destination identification total checksum ++ rest
    headerLength bytes = ipv4HeaderLen ∧ totalLength bytes = total % 65536 ∧ fragmentField bytes = 0 ∧
      byteAt bytes 0 >>> 4 = 4 ∧ byteAt bytes 9 = protoUdp ∧
      (⟨byteAt bytes 12, byteAt bytes 13, byteAt bytes 14, byteAt bytes 15⟩ : Ipv4) = source := by
  intro bytes
  have hfirst : byteAt bytes 0 = 0x45 := rfl
  have htotal : totalLength bytes = u16FromBeBytes (UInt8.ofNat (total / 256)) (UInt8.ofNat total) := rfl
  have hfragment : fragmentField bytes = u16FromBeBytes (UInt8.ofNat (0 / 256)) (UInt8.ofNat 0) := rfl
  refine ⟨?_, ?_, ?_, ?_, rfl, rfl⟩
  · rw [headerLength, hfirst]
    decide
  · rw [htotal, u16FromBeBytes_ofNat]
  · rw [hfragment, u16FromBeBytes_ofNat]
  · rw [hfirst]
    decide

/-- The UDP part of a datagram with padding behind it. -/
theorem udpOf_parts (htotal : total = ipv4HeaderLen + udpHeaderLen + payload.length) (hpayload : payload.length ≤ 65507) :
    udpOf (headerPart source destination identification total checksum ++
      (udpPart sourcePort destinationPort payload ++ padding)) = udpPart sourcePort destinationPort payload := by
  obtain ⟨hheader, htotalLength, -⟩ := header_fields source destination identification total checksum
    (udpPart sourcePort destinationPort payload ++ padding)
  simp only [ipv4HeaderLen, udpHeaderLen] at htotal
  have hparts : (headerPart source destination identification total checksum ++
      udpPart sourcePort destinationPort payload).length = total := by
    rw [List.length_append, length_headerPart, length_udpPart, htotal, ipv4HeaderLen, udpHeaderLen, Nat.add_assoc]
  rw [udpOf, htotalLength, hheader, ← List.append_assoc, List.length_append, hparts,
    show min (total % 65536) (total + padding.length) = total by omega, List.take_left' hparts,
    List.drop_left' (length_headerPart _ _ _ _ _)]

/-- The fields of the UDP header. -/
theorem udp_fields : u16FromBeBytes (byteAt (udpPart sourcePort destinationPort payload) 0)
      (byteAt (udpPart sourcePort destinationPort payload) 1) = sourcePort.toNat ∧
    UInt16.ofNat (u16FromBeBytes (byteAt (udpPart sourcePort destinationPort payload) 2)
      (byteAt (udpPart sourcePort destinationPort payload) 3)) = destinationPort ∧
    u16FromBeBytes (byteAt (udpPart sourcePort destinationPort payload) 4)
      (byteAt (udpPart sourcePort destinationPort payload) 5) = (udpHeaderLen + payload.length) % 65536 := by
  have hport : ∀ port : UInt16, u16FromBeBytes (UInt8.ofNat (port.toNat / 256)) (UInt8.ofNat port.toNat) = port.toNat := by
    intro port
    rw [u16FromBeBytes_ofNat]
    exact Nat.mod_eq_of_lt port.toNat_lt
  refine ⟨hport sourcePort, ?_, u16FromBeBytes_ofNat _⟩
  exact (congrArg UInt16.ofNat (hport destinationPort)).trans UInt16.ofNat_toNat

/-- **What was written is read back**, whatever padding follows. -/
theorem parseIpv4Udp_datagram (hpayload : payload.length ≤ 65507) :
    parseIpv4Udp (ipv4UdpDatagram source destination sourcePort destinationPort identification payload ++ padding) =
      .ok (some { source, destinationPort, payload }) := by
  rw [ipv4UdpDatagram_eq, List.append_assoc]
  generalize onesComplementChecksum _ = checksum
  generalize htotal : ipv4HeaderLen + udpHeaderLen + payload.length = total
  have hudp := udpOf_parts source destination sourcePort destinationPort identification payload padding total checksum
    htotal.symm hpayload
  obtain ⟨hheader, htotalLength, hfragment, hversion, hprotocol, hsource⟩ := header_fields source destination identification
    total checksum (udpPart sourcePort destinationPort payload ++ padding)
  obtain ⟨_, hport, hudpLength⟩ := udp_fields sourcePort destinationPort payload
  have hlength : (headerPart source destination identification total checksum ++
      (udpPart sourcePort destinationPort payload ++ padding)).length = total + padding.length := by
    rw [List.length_append, List.length_append, length_headerPart, length_udpPart, ← htotal]
    omega
  generalize headerPart source destination identification total checksum ++
    (udpPart sourcePort destinationPort payload ++ padding) = bytes at *
  simp only [ipv4HeaderLen, udpHeaderLen] at htotal
  have hwell : WellFormed bytes := by
    refine ⟨?_, hversion, ?_, ?_, hprotocol, ?_⟩ <;> simp only [ipv4HeaderLen, udpHeaderLen] at * <;> omega
  have hdatagram : datagramOf bytes = { source, destinationPort, payload } := by
    rw [datagramOf, hudp, hport, hudpLength, hsource, length_udpPart]
    have hmin : min (max ((udpHeaderLen + payload.length) % 65536) udpHeaderLen) (udpHeaderLen + payload.length) =
        (udpPart sourcePort destinationPort payload).length := by
      rw [length_udpPart, udpHeaderLen]
      omega
    rw [hmin, List.take_length]
    rfl
  rw [(parseIpv4Udp_eq bytes).1 ⟨hwell, by rw [hfragment]; rfl⟩, hdatagram]

end RoundTrip

/-! ## Fragments -/

/-- The flag for more fragments is set. -/
def MoreFragments (bytes : Bytes) : Prop := fragmentField bytes &&& 0x2000 ≠ 0

/-- A part of a larger datagram: the first has only the flag, the last only the offset. -/
def IsFragment (bytes : Bytes) : Prop := fragmentField bytes &&& 0x1fff ≠ 0 ∨ MoreFragments bytes

/-- **Datagrams are read back, and fragments are skipped** but for the first one of a datagram: it is skipped when its headers
are not well-formed, and only then. -/
theorem datagrams_and_fragments (bytes : Bytes) :
    (∀ (source destination : Ipv4) (sourcePort destinationPort identification : UInt16) (payload padding : Bytes),
      payload.length ≤ 65507 →
      let datagram := ipv4UdpDatagram source destination sourcePort destinationPort identification payload
      parseIpv4Udp (datagram ++ padding) = .ok (some { source, destinationPort, payload }) ∧
      u16FromBeBytes (byteAt (datagram ++ padding) 20) (byteAt (datagram ++ padding) 21) = sourcePort.toNat ∧
      endAround (wordSum (datagram.take ipv4HeaderLen)) = 0xffff) ∧
    ((IsFragment bytes → parseIpv4Udp bytes = .ok none) ↔
      ¬ (MoreFragments bytes ∧ fragmentField bytes &&& 0x1fff = 0 ∧ WellFormed bytes)) := by
  constructor
  · intro source destination sourcePort destinationPort identification payload padding hpayload datagram
    refine ⟨parseIpv4Udp_datagram _ _ _ _ _ _ _ hpayload, ?_, wordSum_header _ _ _ _ _ _⟩
    have hport := (udp_fields sourcePort destinationPort payload).1
    rw [← hport, show datagram = _ from ipv4UdpDatagram_eq _ _ _ _ _ _]
    rfl
  · constructor
    · rintro h ⟨hmore, hoffset, hwell⟩
      have hnone := h (.inr hmore)
      rw [(parseIpv4Udp_eq bytes).1 ⟨hwell, hoffset⟩] at hnone
      cases hnone
    · intro h hfragment
      refine (parseIpv4Udp_eq bytes).2 fun hread => ?_
      rcases hfragment with hoffset | hmore
      · exact hoffset hread.2
      · exact h ⟨hmore, hread.2, hread.1⟩

/-- The first fragment of a datagram from port 67 to port 68, with one byte of payload. -/
def firstFragment : Bytes :=
  [0x45, 0, 0, 29, 0, 0, 0x20, 0, 64, 17, 0, 0, 192, 168, 1, 1, 255, 255, 255, 255, 0, 67, 0, 68, 0, 9, 0, 0, 7]

theorem firstFragment_read : IsFragment firstFragment ∧
    parseIpv4Udp firstFragment = .ok (some ⟨⟨192, 168, 1, 1⟩, 68, [7]⟩) := by
  refine ⟨.inr ?_, by decide⟩
  rw [MoreFragments]
  decide

end Firestone.Guest
