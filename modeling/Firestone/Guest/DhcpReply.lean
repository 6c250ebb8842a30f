import Firestone.Lib.Bytes
import Firestone.Lib.IndexLoop

/-!
# DHCP replies

The guest's first process reads the replies of DHCP servers. A reply is the fixed area of BOOTP and a list of options, each a
code, a length and a value.

* `parseReply` — the loop over an index, with checked reads.
* `dhcpOptions`, `referenceReply` — the options of a reply, and what they say.
* `parseReply_exact` — on every packet the loop ends, without a read out of range, with the reference reply.
-/

namespace Firestone.Guest

open Firestone.Lib

/-! ## Packets -/

def fixedLen : Nat := 240
def magicCookie : Bytes := [99, 130, 83, 99]
def opReply : UInt8 := 2

def optionPad : UInt8 := 0
def optionSubnetMask : UInt8 := 1
def optionRouter : UInt8 := 3
def optionDns : UInt8 := 6
def optionLeaseTime : UInt8 := 51
def optionMessageType : UInt8 := 53
def optionServerId : UInt8 := 54
def optionEnd : UInt8 := 255

structure Ipv4 where
  a : UInt8
  b : UInt8
  c : UInt8
  d : UInt8
  deriving DecidableEq, Repr

/-- `u32::from_be_bytes`. -/
def u32FromBeBytes (a b c d : UInt8) : Nat := ((a.toNat * 256 + b.toNat) * 256 + c.toNat) * 256 + d.toNat

structure DhcpReply where
  messageType : UInt8
  xid : Nat
  address : Ipv4
  subnetMask : Option Ipv4
  routers : List Ipv4
  resolvers : List Ipv4
  serverId : Option Ipv4
  leaseSeconds : Option Nat
  deriving DecidableEq, Repr

inductive DhcpError
  | tooShort | notAReply | badCookie | noMessageType
  deriving DecidableEq, Repr

/-! ## The loop -/

def ipv4 : Bytes → Option Ipv4
  | a :: b :: c :: d :: _ => some ⟨a, b, c, d⟩
  | _ => none

def ipv4List : Bytes → List Ipv4
  | a :: b :: c :: d :: rest => ⟨a, b, c, d⟩ :: ipv4List rest
  | _ => []

def leaseTime : Bytes → Option Nat
  | a :: b :: c :: d :: _ => some (u32FromBeBytes a b c d)
  | _ => none

/-- The reply so far, and the message type apart. -/
structure Reading where
  reply : DhcpReply
  messageType : Option UInt8

/-- What an option does. -/
def Reading.apply (reading : Reading) (code : UInt8) (value : Bytes) : Reading :=
  if code = optionMessageType then { reading with messageType := value.head? }
  else if code = optionSubnetMask then { reading with reply := { reading.reply with subnetMask := ipv4 value } }
  else if code = optionRouter then { reading with reply := { reading.reply with routers := ipv4List value } }
  else if code = optionDns then { reading with reply := { reading.reply with resolvers := ipv4List value } }
  else if code = optionServerId then { reading with reply := { reading.reply with serverId := ipv4 value } }
  else if code = optionLeaseTime then { reading with reply := { reading.reply with leaseSeconds := leaseTime value } }
  else reading

/-- One turn of the loop over the options. -/
def optionTurn (packet : Bytes) (state : Nat × Reading) : Checked ((Nat × Reading) ⊕ Reading) :=
  let (index, reading) := state
  if index < packet.length then do
    let code ← readAt packet index
    if code = optionPad then return .inl (index + 1, reading)
    else if code = optionEnd then return .inr reading
    else match packet[index + 1]? with
      | none => return .inr reading
      | some length =>
        match getRange packet (index + 2) (index + 2 + length.toNat) with
        | none => return .inr reading
        | some value => return .inl (index + 2 + length.toNat, reading.apply code value)
  else return .inr reading

/-- `parse_reply`, with the fuel for the loop. -/
def parseReply (fuel : Nat) (packet : Bytes) : Checked (Except DhcpError DhcpReply) :=
  if packet.length < fixedLen then return .error .tooShort
  else do
    if (← readAt packet 0) ≠ opReply then return .error .notAReply
    else if (← slice packet 236 240) ≠ magicCookie then return .error .badCookie
    else do
      let xid := u32FromBeBytes (← readAt packet 4) (← readAt packet 5) (← readAt packet 6) (← readAt packet 7)
      let address : Ipv4 := ⟨← readAt packet 16, ← readAt packet 17, ← readAt packet 18, ← readAt packet 19⟩
      let start : DhcpReply := ⟨0, xid, address, none, [], [], none, none⟩
      let reading ← loop (optionTurn packet) fuel (fixedLen, ⟨start, none⟩)
      match reading.messageType with
      | none => return .error .noMessageType
      | some messageType => return .ok { reading.reply with messageType }

/-! ## The reference -/

/-- The options in their order, up to the end option or one that is cut off. Pad bytes are no options. -/
@[grind =] def dhcpOptions : Bytes → List (UInt8 × Bytes)
  | [] => []
  | code :: rest =>
    if code = optionPad then dhcpOptions rest
    else if code = optionEnd then []
    else match rest with
      | [] => []
      | length :: rest =>
        if length.toNat ≤ rest.length then (code, rest.take length.toNat) :: dhcpOptions (rest.drop length.toNat) else []
termination_by bytes => bytes.length
decreasing_by
  all_goals
    simp only [List.length_cons, List.length_drop]
    omega

/-- The value of the last option with a code. -/
def lastValue (code : UInt8) (options : List (UInt8 × Bytes)) : Option Bytes :=
  (options.reverse.find? (·.1 = code)).map Prod.snd

/-- What a packet says: the last value of each option, read from its start. -/
def referenceReply (packet : Bytes) : Except DhcpError DhcpReply :=
  let byte (index : Nat) : UInt8 := packet.getD index 0
  let options := dhcpOptions (packet.drop fixedLen)
  if packet.length < fixedLen then .error .tooShort
  else if byte 0 ≠ opReply then .error .notAReply
  else if (packet.drop 236).take 4 ≠ magicCookie then .error .badCookie
  else match (lastValue optionMessageType options).bind List.head? with
    | none => .error .noMessageType
    | some messageType => .ok
        { messageType
          xid := u32FromBeBytes (byte 4) (byte 5) (byte 6) (byte 7)
          address := ⟨byte 16, byte 17, byte 18, byte 19⟩
          subnetMask := (lastValue optionSubnetMask options).bind ipv4
          routers := ((lastValue optionRouter options).map ipv4List).getD []
          resolvers := ((lastValue optionDns options).map ipv4List).getD []
          serverId := (lastValue optionServerId options).bind ipv4
          leaseSeconds := (lastValue optionLeaseTime options).bind leaseTime }

/-! ## Every packet -/

section Loop

variable {packet : Bytes}

/-- The options one after the other. -/
def Reading.applyAll (reading : Reading) (options : List (UInt8 × Bytes)) : Reading :=
  options.foldl (fun reading option => reading.apply option.1 option.2) reading

theorem dhcpOptions_pad (rest : Bytes) : dhcpOptions (optionPad :: rest) = dhcpOptions rest := by
  rw [dhcpOptions.eq_def]
  exact if_pos rfl

theorem dhcpOptions_end (rest : Bytes) : dhcpOptions (optionEnd :: rest) = [] := by
  rw [dhcpOptions.eq_def]
  exact (if_neg (by decide)).trans (if_pos rfl)

/-- A code without a length. -/
theorem dhcpOptions_cut {code : UInt8} (hpad : code ≠ optionPad) (hend : code ≠ optionEnd) : dhcpOptions [code] = [] := by
  rw [dhcpOptions.eq_def]
  exact (if_neg hpad).trans (if_neg hend)

theorem dhcpOptions_option {code length : UInt8} {rest : Bytes} (hpad : code ≠ optionPad) (hend : code ≠ optionEnd) :
    dhcpOptions (code :: length :: rest) = if length.toNat ≤ rest.length then
      (code, rest.take length.toNat) :: dhcpOptions (rest.drop length.toNat) else [] := by
  rw [dhcpOptions.eq_def]
  exact (if_neg hpad).trans (if_neg hend)

theorem optionTurn_eq (state : Nat × Reading) :
    optionTurn packet state = .ok (.inr (state.2.applyAll (dhcpOptions (packet.drop state.1)))) ∨
      ∃ next, optionTurn packet state = .ok (.inl next) ∧ packet.length - next.1 < packet.length - state.1 ∧
        next.2.applyAll (dhcpOptions (packet.drop next.1)) = state.2.applyAll (dhcpOptions (packet.drop state.1)) := by
  obtain ⟨index, reading⟩ := state
  by_cases hindex : index < packet.length
  · obtain ⟨code, rest, hdrop⟩ := exists_drop_eq_cons hindex
    have hrest := drop_succ_of_drop hdrop
    simp only [optionTurn, if_pos hindex, readAt_of_drop hdrop, hdrop, bind, Except.bind, pure, Except.pure]
    by_cases hpad : code = optionPad
    · subst hpad
      refine .inr ⟨(index + 1, reading), if_pos rfl, by dsimp only; omega, ?_⟩
      dsimp only
      rw [hrest, dhcpOptions_pad]
    by_cases hend : code = optionEnd
    · subst hend
      refine .inl ?_
      rw [if_neg hpad, if_pos rfl, dhcpOptions_end]
      rfl
    rw [if_neg hpad, if_neg hend]
    have hnext : packet[index + 1]? = rest.head? := by rw [← List.head?_drop, hrest]
    cases rest with
    | nil =>
      refine .inl ?_
      rw [hnext, dhcpOptions_cut hpad hend]
      rfl
    | cons length rest =>
      have hvalue := drop_succ_of_drop hrest
      have hlength : rest.length = packet.length - (index + 2) := by rw [← hvalue, List.length_drop]
      rw [hnext, List.head?_cons, dhcpOptions_option hpad hend]
      dsimp only
      by_cases hfits : length.toNat ≤ rest.length
      · have hinside : index + 2 ≤ packet.length := by
          have hlt := List.length_drop (i := index) (l := packet)
          rw [hdrop, List.length_cons, List.length_cons] at hlt
          omega
        have htake : (rest.take length.toNat).length = length.toNat := List.length_take_of_le hfits
        have hrange := getRange_eq (hvalue.trans (List.take_append_drop length.toNat rest).symm) hinside
        rw [htake] at hrange
        rw [hrange, if_pos hfits]
        refine .inr ⟨(index + 2 + length.toNat, reading.apply code (rest.take length.toNat)), rfl, by dsimp only; omega, ?_⟩
        dsimp only
        rw [← List.drop_drop, hvalue]
        rfl
      · have hrange : getRange packet (index + 2) (index + 2 + length.toNat) = none := by
          rw [getRange, if_neg (by omega)]
        rw [hrange, if_neg hfits]
        exact .inl rfl
  · refine .inl ?_
    rw [optionTurn, if_neg hindex, List.drop_eq_nil_of_le (by dsimp only; omega), dhcpOptions]
    rfl

theorem optionLoop_eq {fuel index : Nat} {reading : Reading} (h : packet.length < fuel) :
    loop (optionTurn packet) fuel (index, reading) = .ok (reading.applyAll (dhcpOptions (packet.drop index))) :=
  loop_eq (fun state : Nat × Reading => state.2.applyAll (dhcpOptions (packet.drop state.1)))
    (fun state => packet.length - state.1) optionTurn_eq (by dsimp only; omega)

end Loop

/-! ## The last value of an option -/

theorem lastValue_cons {code c : UInt8} {value : Bytes} {options : List (UInt8 × Bytes)} :
    lastValue code ((c, value) :: options) = (lastValue code options).or (if c = code then some value else none) := by
  rw [lastValue, List.reverse_cons, List.find?_append, Option.map_or, ← lastValue]
  by_cases hc : c = code <;> simp [hc]

/-- A field that the options with one code set has what the last of them gives. -/
theorem applyAll_field {γ : Type} (field : Reading → γ) {code : UInt8} {read : Bytes → γ}
    (hset : ∀ (reading : Reading) value, field (reading.apply code value) = read value)
    (hkeep : ∀ (reading : Reading) c value, c ≠ code → field (reading.apply c value) = field reading) :
    ∀ (options : List (UInt8 × Bytes)) (reading : Reading),
    field (reading.applyAll options) = ((lastValue code options).map read).getD (field reading)
  | [], _ => rfl
  | (c, value) :: options, reading => by
    have ih := applyAll_field field hset hkeep options (reading.apply c value)
    rw [lastValue_cons]
    refine ih.trans ?_
    by_cases hc : c = code
    · subst hc
      cases lastValue c options <;> simp [hset]
    · cases lastValue code options <;> simp [hc, hkeep reading c value hc]

/-- A field that no option sets. -/
theorem applyAll_keep {γ : Type} (field : Reading → γ)
    (hkeep : ∀ (reading : Reading) c value, field (reading.apply c value) = field reading) :
    ∀ (options : List (UInt8 × Bytes)) (reading : Reading), field (reading.applyAll options) = field reading
  | [], _ => rfl
  | (c, value) :: options, reading => (applyAll_keep field hkeep options (reading.apply c value)).trans (hkeep reading c value)

/-- An option leaves the fields of the others as they are, and the fixed ones. -/
theorem apply_keeps (reading : Reading) (c : UInt8) (value : Bytes) :
    let next := reading.apply c value
    next.reply.xid = reading.reply.xid ∧ next.reply.address = reading.reply.address ∧
    (c ≠ optionMessageType → next.messageType = reading.messageType) ∧
    (c ≠ optionSubnetMask → next.reply.subnetMask = reading.reply.subnetMask) ∧
    (c ≠ optionRouter → next.reply.routers = reading.reply.routers) ∧
    (c ≠ optionDns → next.reply.resolvers = reading.reply.resolvers) ∧
    (c ≠ optionServerId → next.reply.serverId = reading.reply.serverId) ∧
    (c ≠ optionLeaseTime → next.reply.leaseSeconds = reading.reply.leaseSeconds) := by
  unfold Reading.apply
  split_ifs <;> simp_all

/-- The reading at the end of the options. -/
theorem applyAll_eq (options : List (UInt8 × Bytes)) (xid : Nat) (address : Ipv4) :
    let reading := Reading.applyAll ⟨⟨0, xid, address, none, [], [], none, none⟩, none⟩ options
    reading.messageType = (lastValue optionMessageType options).bind List.head? ∧
    ∀ messageType, { reading.reply with messageType } =
      { messageType, xid, address
        subnetMask := (lastValue optionSubnetMask options).bind ipv4
        routers := ((lastValue optionRouter options).map ipv4List).getD []
        resolvers := ((lastValue optionDns options).map ipv4List).getD []
        serverId := (lastValue optionServerId options).bind ipv4
        leaseSeconds := (lastValue optionLeaseTime options).bind leaseTime : DhcpReply } := by
  have hbind : ∀ {γ : Type} (read : Bytes → Option γ) (value : Option Bytes), (value.map read).getD none = value.bind read := by
    intro γ read value
    cases value <;> rfl
  intro reading
  have hmessageType : reading.messageType = ((lastValue optionMessageType options).map List.head?).getD none :=
    applyAll_field (·.messageType) (fun r v => rfl) (fun r c v => (apply_keeps r c v).2.2.1) options _
  have hxid : reading.reply.xid = xid := applyAll_keep (·.reply.xid) (fun r c v => (apply_keeps r c v).1) options _
  have haddress : reading.reply.address = address :=
    applyAll_keep (·.reply.address) (fun r c v => (apply_keeps r c v).2.1) options _
  have hsubnetMask : reading.reply.subnetMask = ((lastValue optionSubnetMask options).map ipv4).getD none :=
    applyAll_field (·.reply.subnetMask) (fun r v => rfl) (fun r c v => (apply_keeps r c v).2.2.2.1) options _
  have hrouters : reading.reply.routers = ((lastValue optionRouter options).map ipv4List).getD [] :=
    applyAll_field (·.reply.routers) (fun r v => rfl) (fun r c v => (apply_keeps r c v).2.2.2.2.1) options _
  have hresolvers : reading.reply.resolvers = ((lastValue optionDns options).map ipv4List).getD [] :=
    applyAll_field (·.reply.resolvers) (fun r v => rfl) (fun r c v => (apply_keeps r c v).2.2.2.2.2.1) options _
  have hserverId : reading.reply.serverId = ((lastValue optionServerId options).map ipv4).getD none :=
    applyAll_field (·.reply.serverId) (fun r v => rfl) (fun r c v => (apply_keeps r c v).2.2.2.2.2.2.1) options _
  have hleaseSeconds : reading.reply.leaseSeconds = ((lastValue optionLeaseTime options).map leaseTime).getD none :=
    applyAll_field (·.reply.leaseSeconds) (fun r v => rfl) (fun r c v => (apply_keeps r c v).2.2.2.2.2.2.2) options _
  refine ⟨hmessageType.trans (hbind _ _), fun messageType => ?_⟩
  dsimp only
  rw [hxid, haddress, hsubnetMask, hrouters, hresolvers, hserverId, hleaseSeconds, hbind, hbind, hbind]

/-! ## The whole of it -/

theorem readAt_eq_getD {α : Type} {xs : List α} {index : Nat} (x : α) (h : index < xs.length) :
    readAt xs index = .ok (xs.getD index x) := by
  rw [readAt, List.getD_eq_getElem?_getD, List.getElem?_eq_getElem h]
  rfl

/-- **A packet is read for what it says**: on every packet the loop ends, without a read out of range. -/
theorem parseReply_exact {packet : Bytes} {fuel : Nat} (h : packet.length < fuel) :
    parseReply fuel packet = .ok (referenceReply packet) := by
  unfold parseReply referenceReply
  by_cases hshort : packet.length < fixedLen
  · rw [if_pos hshort, if_pos hshort]
    rfl
  have hlength : 240 ≤ packet.length := by
    rw [fixedLen] at hshort
    omega
  have hread : ∀ index < 240, readAt packet index = .ok (packet.getD index 0) :=
    fun index hindex => readAt_eq_getD 0 (by omega)
  have hcookie : slice packet 236 240 = .ok ((packet.drop 236).take 4) := by
    rw [slice, getRange, if_pos ⟨by omega, hlength⟩, List.drop_take]
  obtain ⟨hmessageType, hreply⟩ := applyAll_eq (dhcpOptions (packet.drop fixedLen))
    (u32FromBeBytes (packet.getD 4 0) (packet.getD 5 0) (packet.getD 6 0) (packet.getD 7 0))
    ⟨packet.getD 16 0, packet.getD 17 0, packet.getD 18 0, packet.getD 19 0⟩
  rw [if_neg hshort, if_neg hshort]
  simp only [hread 0 (by omega), hread 4 (by omega), hread 5 (by omega), hread 6 (by omega), hread 7 (by omega),
    hread 16 (by omega), hread 17 (by omega), hread 18 (by omega), hread 19 (by omega), hcookie, optionLoop_eq h,
    bind, Except.bind, pure, Except.pure]
  by_cases hop : packet.getD 0 0 ≠ opReply
  · rw [if_pos hop, if_pos hop]
  rw [if_neg hop, if_neg hop]
  by_cases hmagic : (packet.drop 236).take 4 ≠ magicCookie
  · rw [if_pos hmagic, if_pos hmagic]
  rw [if_neg hmagic, if_neg hmagic, hmessageType]
  cases (lastValue optionMessageType (dhcpOptions (packet.drop fixedLen))).bind List.head? with
  | none => rfl
  | some messageType =>
    dsimp only
    rw [hreply messageType]

/-- A packet with some options. -/
def replyPacket (options : Bytes) : Bytes := [2, 1, 6, 0] ++ List.replicate 232 0 ++ magicCookie ++ options

theorem length_replyPacket (options : Bytes) : (replyPacket options).length = 240 + options.length := by
  simp only [replyPacket, List.length_append, List.length_replicate, magicCookie, List.length_cons, List.length_nil]

/-- An acknowledgement with a subnet mask, and after it a subnet mask of one byte. -/
def shortMask : Bytes := [53, 1, 5, 1, 4, 255, 255, 255, 0, 1, 1, 255, 255]

theorem parseReply_exact_shortMask : parseReply 300 (replyPacket shortMask) = .ok (referenceReply (replyPacket shortMask)) :=
  parseReply_exact (by rw [length_replyPacket]; decide)

/-- The length of the value is the one for its type. -/
def optionFits (option : UInt8 × Bytes) : Bool :=
  if option.1 = optionMessageType then option.2.length = 1
  else if option.1 = optionSubnetMask ∨ option.1 = optionServerId ∨ option.1 = optionLeaseTime then option.2.length = 4
  else if option.1 = optionRouter ∨ option.1 = optionDns then option.2 ≠ [] && option.2.length % 4 = 0
  else true

set_option maxRecDepth 4000 in
/-- A value that is too short is not passed over: the mask before it is lost. -/
theorem parseReply_drops_mask :
    (∃ reply, parseReply 300 (replyPacket shortMask) = .ok (.ok reply) ∧ reply.subnetMask = none) ∧
    (lastValue optionSubnetMask ((dhcpOptions ((replyPacket shortMask).drop fixedLen)).filter optionFits)).bind ipv4 =
      some ⟨255, 255, 255, 0⟩ := by
  have hdrop : (replyPacket shortMask).drop fixedLen = shortMask := by decide
  have hoptions : dhcpOptions shortMask = [(53, [5]), (1, [255, 255, 255, 0]), (1, [255])] := by
    simp [shortMask, dhcpOptions, optionPad, optionEnd]
  refine ⟨⟨_, rfl, rfl⟩, ?_⟩
  rw [hdrop, hoptions]
  decide

end Firestone.Guest
