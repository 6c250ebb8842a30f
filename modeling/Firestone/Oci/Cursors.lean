import Firestone.Lib.Services
import Firestone.Oci.Caps
import Firestone.Oci.Stream

/-!
# Calls on a cursor

A `LayerCursor` keeps its place also when a call fails. Here every call returns the cursor it leaves, and the cursors of
a merge are compared with readers that jump to a member at once.

* `Kept` — the calls, with the cursor they leave; `forget_seekTo` and its like say that they are those of `Tar.lean`.
* `Place` — where a reader stands that knows the members of its layer.
* `cursors_exact` — calls in any order, on any of the cursors, are answered as the layers have it, as long as none reads on
  from a place that the reader has lost.
* `cursor_reads_on` — a cursor that reads on past the end of an archive, or after a copy that failed half way, takes what
  is there for a header.
-/

namespace Firestone.Oci

open Firestone.Lib

/-! ## Calls -/

/-- How the output of `copy_data` takes what it is given. -/
inductive Output
  | takes
  /-- The write fails after so many bytes have been read of the payload. -/
  | failsAfter (given : Nat)
  | failsInPadding
  deriving DecidableEq, Repr

inductive Call
  | seekTo (ordinal : Nat)
  | readHeader
  | skipData
  | copyData (output : Output)
  deriving DecidableEq, Repr

inductive Answer
  | header (member : Option TarMember)
  | skipped
  | copied (written : Bytes)
  | failed (error : FirestoneError)
  deriving DecidableEq

def copyError : FirestoneError :=
  (FirestoneError.new .dependency "cannot copy an OCI layer entry").withHint "re-pull the image and merge it again"

def writeError : FirestoneError :=
  (FirestoneError.new .dependency "cannot write the merged OCI tar").withHint
    "check free space in the firestone image store"

def endedBefore (label : String) (ordinal : Nat) : FirestoneError :=
  layerError ("layer " ++ label ++ " ended before entry " ++ toString ordinal) "re-pull the image and merge it again"

def nothingPending (label : String) : FirestoneError :=
  layerError ("layer " ++ label ++ " has no entry payload pending") "report this as a firestone bug"

/-- What a read of `n` bytes leaves, also when there are fewer. -/
def Stream.after (n : Nat) (s : Stream) : Stream := { s with bytes := s.bytes.drop n }

/-- A result, and the cursor that is left. -/
abbrev Kept (α : Type) := Res α × Cursor

namespace Kept

variable {α β : Type}

def andThen (x : Kept α) (f : α → Cursor → Kept β) : Kept β :=
  match x with
  | (.ok a, c) => f a c
  | (.error e, c) => (.error e, c)

/-- The cursor of a failed call is given up. -/
def forget (x : Kept α) : Res (α × Cursor) :=
  match x with
  | (.ok a, c) => .ok (a, c)
  | (.error e, _) => .error e

def reopen (c : Cursor) : Kept Unit :=
  match c.source.stream with
  | .error e => (.error e, c)
  | .ok s => (.ok (), { c with reader := some s, nextOrdinal := 0, pendingData := none })

/-- The size that is pending is taken in any case. -/
def takePending (c : Cursor) : Kept Nat := (c.takePending, { c with pendingData := none })

def skipData (c : Cursor) : Kept Unit :=
  andThen (takePending c) fun size c =>
    match c.readerMut with
    | .error e => (.error e, c)
    | .ok s => match s.readExactPadded c.label size with
      | .error e => (.error e, { c with reader := some (s.after (size + paddingFor size)) })
      | .ok (_, s) => (.ok (), { c with reader := some s })

/-- The output is written to as long as there is something to write. -/
def copyData (output : Output) (c : Cursor) : Kept Bytes :=
  andThen (takePending c) fun size c =>
    match c.readerMut with
    | .error e => (.error e, c)
    | .ok s =>
      let whole : Kept Bytes :=
        if s.bytes.length < size ∧ s.broken then (.error copyError, { c with reader := some (s.after size) })
        else match s.readExactPadded c.label size with
          | .error e => (.error e, { c with reader := some (s.after (size + paddingFor size)) })
          | .ok (payload, s) =>
            if output = .failsInPadding ∧ 0 < paddingFor size then (.error writeError, { c with reader := some s })
            else (.ok (payload ++ zeros (paddingFor size)), { c with reader := some s })
      match output with
      | .failsAfter given =>
        if 0 < given ∧ given ≤ s.reads size then (.error copyError, { c with reader := some (s.after given) }) else whole
      | _ => whole

def opened (c : Cursor) : Kept Unit := if c.reader.isNone then reopen c else (.ok (), c)

def settled (c : Cursor) : Kept Unit := if c.pendingData.isSome then skipData c else (.ok (), c)

section ops

variable (ops : HeaderOps)

/-- Reads the headers that stand where the cursor is. -/
def readThere (c : Cursor) : Kept (Option TarMember) :=
  match c.readerMut with
  | .error e => (.error e, c)
  | .ok s => match readMember ops c.label c.nextOrdinal s with
    | .error e => (.error e, { c with reader := some (s.after (headerReads ops c.label s)) })
    | .ok (none, s) => (.ok none, { c with reader := some s })
    | .ok (some member, s) =>
      (.ok (some member), ⟨c.index, c.source, some s, c.nextOrdinal + 1, some member.dataSize⟩)

def readHeader (c : Cursor) : Kept (Option TarMember) :=
  andThen (andThen (opened c) fun _ c => settled c) fun _ c => readThere ops c

@[grind =] def seekFrom (ordinal : Nat) : Nat → Cursor → Kept TarMember
  | 0, c => (.error (endedBefore c.label ordinal), c)
  | fuel + 1, c => andThen (readHeader ops c) fun m c =>
    match m with
    | none => (.error (endedBefore c.label ordinal), c)
    | some member =>
      if member.ordinal = ordinal then (.ok member, c)
      else andThen (skipData c) fun _ c => seekFrom ordinal fuel c

def seekTo (ordinal : Nat) (c : Cursor) : Kept TarMember :=
  andThen (if c.reader.isNone || c.nextOrdinal > ordinal then reopen c else (.ok (), c)) fun _ c =>
    seekFrom ops ordinal (ordinal + 1) c

def answer (f : α → Answer) (x : Kept α) : Answer × Cursor :=
  match x with
  | (.ok a, c) => (f a, c)
  | (.error e, c) => (.failed e, c)

/-- A cursor as a service. -/
def call : Service Cursor Call Answer := fun c k =>
  match k with
  | .seekTo ordinal => answer (fun m => .header (some m)) (seekTo ops ordinal c)
  | .readHeader => answer .header (readHeader ops c)
  | .skipData => answer (fun _ => .skipped) (skipData c)
  | .copyData output => answer .copied (copyData output c)

end ops

/-! ## The calls of a reader that stops at an error -/

theorem forget_andThen (x : Kept α) (f : α → Cursor → Kept β) :
    (andThen x f).forget = x.forget >>= fun r => (f r.1 r.2).forget := by
  obtain ⟨r, c⟩ := x
  cases r <;> rfl

theorem forget_reopen (c : Cursor) : (reopen c).forget = c.reopen.map fun c => ((), c) := by
  simp only [reopen, Cursor.reopen]
  cases c.source.stream <;> rfl

theorem forget_skipData (c : Cursor) : (skipData c).forget = c.skipData.map fun c => ((), c) := by
  obtain ⟨index, source, reader, n, pending⟩ := c
  cases pending with
  | none => rfl
  | some size =>
    cases reader with
    | none => rfl
    | some s =>
      simp only [skipData, takePending, Cursor.takePending, andThen, Cursor.readerMut, Cursor.skipData, Cursor.label]
      show forget (match s.readExactPadded _ size with | .error e => _ | .ok (_, s) => _) =
        (s.readExactPadded _ size >>= _).map _
      cases s.readExactPadded (source.cursorLabel index) size <;> rfl

theorem forget_copyData (c : Cursor) : (copyData .takes c).forget =
    c.copyData.map fun r => (r.1 ++ zeros (paddingFor r.1.length), r.2) := by
  obtain ⟨index, source, reader, n, pending⟩ := c
  cases pending with
  | none => rfl
  | some size =>
    cases reader with
    | none => rfl
    | some s =>
      simp only [copyData, takePending, Cursor.takePending, andThen, Cursor.readerMut, Cursor.copyData, Cursor.label]
      show forget (if s.bytes.length < size ∧ s.broken = true then _ else _) =
        Except.map _ (if s.bytes.length < size ∧ s.broken = true then _ else _)
      split
      · rfl
      · show forget (match s.readExactPadded _ size with | .error e => _ | .ok (payload, s) => _) =
          (s.readExactPadded _ size >>= _).map _
        cases hpay : s.readExactPadded (source.cursorLabel index) size with
        | error e => rfl
        | ok r =>
          obtain ⟨hlength, _, _⟩ := Stream.readExactPadded_ok hpay
          simp only [reduceCtorEq, false_and, if_false, forget]
          rw [← hlength]
          rfl

theorem forget_settled (c : Cursor) :
    (andThen (opened c) fun _ c => settled c).forget = (c.opened >>= (·.settled)).map fun c => ((), c) := by
  rw [forget_andThen]
  have hopened : (opened c).forget = c.opened.map fun c => ((), c) := by
    unfold opened Cursor.opened
    split
    · exact forget_reopen c
    · rfl
  rw [hopened]
  cases c.opened with
  | error e => rfl
  | ok c' =>
    show (settled c').forget = c'.settled.map _
    unfold settled Cursor.settled
    split
    · exact forget_skipData c'
    · rfl

section ops

variable (ops : HeaderOps)

theorem forget_readThere (c : Cursor) : (readThere ops c).forget = do
    let s ← c.readerMut
    match ← readMember ops c.label c.nextOrdinal s with
    | (none, s) => return (none, { c with reader := some s })
    | (some member, s) => return (some member,
        { c with reader := some s, nextOrdinal := c.nextOrdinal + 1, pendingData := some member.dataSize }) := by
  unfold readThere
  cases c.readerMut with
  | error e => rfl
  | ok s =>
    show _ = (readMember ops c.label c.nextOrdinal s >>= _)
    simp only
    cases readMember ops c.label c.nextOrdinal s with
    | error e => rfl
    | ok r =>
      obtain ⟨m, s'⟩ := r
      cases m <;> rfl

theorem forget_readHeader (c : Cursor) : (readHeader ops c).forget = c.readHeader ops := by
  rw [readHeader, forget_andThen, forget_settled]
  have hassoc : c.readHeader ops = (c.opened >>= (·.settled)) >>= fun c => (readThere ops c).forget := by
    rw [bind_assoc]
    simp only [forget_readThere]
    rfl
  rw [hassoc]
  cases c.opened >>= (·.settled) <;> rfl

theorem forget_seekFrom (ordinal : Nat) : ∀ (fuel : Nat) (c : Cursor),
    (seekFrom ops ordinal fuel c).forget = c.seekFrom ops ordinal fuel
  | 0, c => rfl
  | fuel + 1, c => by
    rw [seekFrom, forget_andThen, forget_readHeader, Cursor.seekFrom]
    cases c.readHeader ops with
    | error e => rfl
    | ok r =>
      obtain ⟨m, c'⟩ := r
      cases m with
      | none => rfl
      | some m =>
        show forget (if m.ordinal = ordinal then _ else _) = (if m.ordinal = ordinal then _ else _)
        split
        · rfl
        · rw [forget_andThen, forget_skipData]
          show _ = (c'.skipData >>= _)
          cases c'.skipData with
          | error e => rfl
          | ok c'' => exact forget_seekFrom ordinal fuel c''

/-- A reader that stops at an error sees what the cursor that goes on sees. -/
theorem forget_seekTo (ordinal : Nat) (c : Cursor) : (seekTo ops ordinal c).forget = c.seekTo ops ordinal := by
  unfold seekTo Cursor.seekTo
  rw [forget_andThen]
  split
  · rw [forget_reopen]
    cases c.reopen with
    | error e => rfl
    | ok c' => exact forget_seekFrom ops ordinal _ c'
  · exact forget_seekFrom ops ordinal _ c

end ops

end Kept

/-! ## Places -/

/-- Nothing is left but whole zero blocks. -/
def Stream.blank (s : Stream) : Bool := !s.broken && s.bytes.length % 512 == 0 && s.bytes.all (· == 0)

/-- Where a reader stands. -/
structure Place where
  /-- The number of the member that comes next. -/
  next : Nat
  /-- The member whose payload comes first. -/
  pending : Option TarItem
  /-- What comes next is not what the layer has there. -/
  lost : Bool

namespace Place

def start : Place := ⟨0, none, false⟩

/-- The call reads on from where the reader is. -/
def readsOn (p : Place) : Call → Bool
  | .seekTo ordinal => p.next ≤ ordinal
  | .readHeader => true
  | _ => false

/-- A reader that is lost does not read on. -/
def Allows (p : Place) (k : Call) : Prop := p.lost = true → p.readsOn k = false

instance (p : Place) (k : Call) : Decidable (p.Allows k) := inferInstanceAs (Decidable (_ → _))

/-- What is answered by a reader that has the members of the layer before it. -/
def call (label : String) (contents : Decoded) : Service Place Call Answer := fun p k =>
  match k with
  | .seekTo ordinal => match contents.items[ordinal]? with
    | some it => (.header (some it.member), ⟨ordinal + 1, some it, false⟩)
    | none => (.failed (endedBefore label ordinal), ⟨contents.items.length, none, !contents.rest.blank⟩)
  | .readHeader => match contents.items[p.next]? with
    | some it => (.header (some it.member), ⟨p.next + 1, some it, false⟩)
    | none => (.header none, ⟨p.next, none, !contents.rest.blank⟩)
  | .skipData => match p.pending with
    | some _ => (.skipped, ⟨p.next, none, false⟩)
    | none => (.failed (nothingPending label), p)
  | .copyData output => match p.pending with
    | none => (.failed (nothingPending label), p)
    | some it =>
      let whole := it.payload.length + paddingFor it.payload.length
      match output with
      | .failsAfter given =>
        if 0 < given ∧ given ≤ it.payload.length then (.failed copyError, ⟨p.next, none, given < whole⟩)
        else (.copied (it.payload ++ zeros (paddingFor it.payload.length)), ⟨p.next, none, false⟩)
      | .failsInPadding =>
        if 0 < paddingFor it.payload.length then (.failed writeError, ⟨p.next, none, false⟩)
        else (.copied (it.payload ++ zeros (paddingFor it.payload.length)), ⟨p.next, none, false⟩)
      | .takes => (.copied (it.payload ++ zeros (paddingFor it.payload.length)), ⟨p.next, none, false⟩)

end Place

/-! ## Streams between members -/

section streams

variable {ops : HeaderOps} {label : String}

theorem Stream.after_of_readExactPadded {size : Nat} {s s' : Stream} {data : Bytes}
    (h : s.readExactPadded label size = .ok (data, s')) : s.after (size + paddingFor size) = s' := by
  unfold Stream.readExactPadded at h
  split at h
  · unfold Stream.short at h
    split at h <;> cases h
  · split at h
    · unfold Stream.short at h
      split at h <;> cases h
    · cases h
      rfl

/-- A header read from zero blocks finds nothing and leaves zero blocks. -/
theorem readMember_of_blank {s : Stream} (h : s.blank = true) (n : Nat) :
    ∃ s', readMember ops label n s = .ok (none, s') ∧ s'.blank = true := by
  obtain ⟨bytes, broken⟩ := s
  simp only [Stream.blank, Bool.and_eq_true, Bool.not_eq_true', beq_iff_eq, List.all_eq_true] at h
  obtain ⟨⟨hbroken, hlength⟩, hzero⟩ := h
  subst hbroken
  by_cases hempty : bytes = []
  · subst hempty
    exact ⟨⟨[], false⟩, rfl, rfl⟩
  · have hpos : 0 < bytes.length := List.length_pos_iff.mpr hempty
    have htake : (bytes.take 512).length = 512 := by
      rw [List.length_take]
      omega
    have hblock : Block.isZero ⟨bytes.take 512, htake⟩ = true :=
      List.all_eq_true.mpr fun b hb => beq_iff_eq.mpr (hzero b (List.mem_of_mem_take hb))
    refine ⟨⟨bytes.drop 512, false⟩, ?_, ?_⟩
    · have hread : Stream.readBlock label ⟨bytes, false⟩ =
          .ok (some ⟨bytes.take 512, htake⟩, ⟨bytes.drop 512, false⟩) := by
        unfold Stream.readBlock
        rw [dif_pos htake]
      rw [readMember, readMemberFrom, hread]
      show (if Block.isZero ⟨bytes.take 512, htake⟩ = true then _ else _) = _
      rw [if_pos hblock]
      rfl
    · simp only [Stream.blank, Bool.not_false, Bool.true_and, Bool.and_eq_true, beq_iff_eq, List.all_eq_true,
        List.length_drop]
      exact ⟨by omega, fun b hb => hzero b (List.mem_of_mem_drop hb)⟩

variable (ops label) in
/-- The stream holds the members from number `n` on, and what follows them is blank if it is in the layer. -/
structure Ahead (contents : Decoded) (n : Nat) (s : Stream) : Prop where
  rest : Rest ops label contents.items n s
  le : n ≤ contents.items.length
  blank : contents.rest.blank = true → (decodeAt ops label n s).rest.blank = true

variable {contents : Decoded} {n : Nat} {s : Stream}

theorem Ahead.next {it : TarItem} (h : Ahead ops label contents n s) (hit : contents.items[n]? = some it) :
    ∃ s' s'', readMember ops label n s = .ok (some it.member, s') ∧
      s'.readExactPadded label it.member.dataSize = .ok (it.payload, s'') ∧ Ahead ops label contents (n + 1) s'' := by
  obtain ⟨s', s'', hread, hpay, hrest⟩ := h.rest.next hit
  refine ⟨s', s'', hread, hpay, hrest, (List.getElem?_eq_some_iff.mp hit).1, fun hblank => ?_⟩
  have hdecode := h.blank hblank
  rw [decodeAt_eq, hread] at hdecode
  simp only [hpay] at hdecode
  exact hdecode

/-- Behind the last member a header read finds nothing, as often as what is left is blank. -/
theorem Ahead.ended (h : Ahead ops label contents n s) (hit : contents.items[n]? = none) :
    ∃ s', readMember ops label n s = .ok (none, s') ∧ (contents.rest.blank = true → Ahead ops label contents n s') := by
  obtain ⟨hitems, hfail⟩ := h.rest
  have hblank := h.blank
  have hdrop : contents.items.drop n = [] := List.drop_eq_nil_iff.mpr (List.getElem?_eq_none_iff.mp hit)
  rw [hdrop] at hitems
  rw [decodeAt_eq] at hitems hfail hblank
  cases hread : readMember ops label n s with
  | error e => rw [hread] at hfail; cases hfail
  | ok r =>
    obtain ⟨m, s'⟩ := r
    rw [hread] at hitems hfail hblank
    cases m with
    | some m =>
      simp only at hitems hfail
      cases hpay : s'.readExactPadded label m.dataSize with
      | error e => rw [hpay] at hfail; cases hfail
      | ok r => rw [hpay] at hitems; cases hitems
    | none =>
      refine ⟨s', rfl, fun hb => ?_⟩
      obtain ⟨s'', hread', hb'⟩ := @readMember_of_blank ops label s' (hblank hb) n
      have hdecode : decodeAt ops label n s' = ⟨[], s'.bytes.length - s''.bytes.length, s'', none⟩ := by
        rw [decodeAt_eq, hread']
      refine ⟨⟨?_, ?_⟩, h.le, fun _ => ?_⟩
      · rw [hdecode, hdrop]
      · rw [hdecode]
      · rw [hdecode]
        exact hb'

end streams

/-! ## The cursor stands where the reader does -/

section simulation

variable (ops : HeaderOps) (source : LayerSource) (index : Nat)

/-- The cursor of a layer at a place. -/
inductive At : Cursor → Place → Prop
  | closed : At ⟨index, source, none, 0, none⟩ .start
  | between {s : Stream} {n : Nat} (h : Ahead ops (source.cursorLabel index) (source.contents ops index) n s) :
      At ⟨index, source, some s, n, none⟩ ⟨n, none, false⟩
  | payload {s s' : Stream} {n : Nat} {it : TarItem}
      (hpay : s.readExactPadded (source.cursorLabel index) it.member.dataSize = .ok (it.payload, s'))
      (h : Ahead ops (source.cursorLabel index) (source.contents ops index) n s') :
      At ⟨index, source, some s, n, some it.member.dataSize⟩ ⟨n, some it, false⟩
  | lost {s : Stream} {n : Nat} : At ⟨index, source, some s, n, none⟩ ⟨n, none, true⟩

variable {ops source index} {c : Cursor} {p : Place}

theorem Kept.skipData_of_payload {s s' : Stream} {n size : Nat} {data : Bytes}
    (hpay : s.readExactPadded (source.cursorLabel index) size = .ok (data, s')) :
    Kept.skipData ⟨index, source, some s, n, some size⟩ = (.ok (), ⟨index, source, some s', n, none⟩) := by
  simp only [Kept.skipData, Kept.takePending, Cursor.takePending, Kept.andThen, Cursor.readerMut, Cursor.label]
  rw [hpay]

/-- A layer that decodes can be opened, with all of its members ahead. -/
theorem Kept.reopen_ahead (hfail : (source.contents ops index).failure = none) : ∃ s,
    Ahead ops (source.cursorLabel index) (source.contents ops index) 0 s ∧ ∀ reader n pending,
      Kept.reopen ⟨index, source, reader, n, pending⟩ = (.ok (), ⟨index, source, some s, 0, none⟩) := by
  obtain ⟨s, hs, hrest⟩ := LayerSource.contents_rest hfail
  refine ⟨s, ⟨hrest, Nat.zero_le _, fun hblank => ?_⟩, fun reader n pending => ?_⟩
  · simpa only [LayerSource.contents, hs] using hblank
  · simp only [Kept.reopen, hs]

/-- Before a header is read the cursor is open and no payload is pending. -/
theorem At.settle (h : At ops source index c p) (hfail : (source.contents ops index).failure = none)
    (hlost : p.lost = false) : ∃ s, Ahead ops (source.cursorLabel index) (source.contents ops index) p.next s ∧
      (Kept.andThen (Kept.opened c) fun _ c => Kept.settled c) = (.ok (), ⟨index, source, some s, p.next, none⟩) := by
  cases h with
  | closed =>
    obtain ⟨s, hahead, hreopen⟩ := Kept.reopen_ahead hfail
    refine ⟨s, hahead, ?_⟩
    show (Kept.andThen (Kept.reopen _) _) = _
    rw [hreopen]
    rfl
  | @between s n hahead => exact ⟨s, hahead, rfl⟩
  | payload hpay hahead => exact ⟨_, hahead, Kept.skipData_of_payload hpay⟩
  | lost => cases hlost

/-- One header, read from between two members. -/
theorem Ahead.readThere {n : Nat} {s : Stream}
    (h : Ahead ops (source.cursorLabel index) (source.contents ops index) n s) :
    let r := Kept.readThere ops ⟨index, source, some s, n, none⟩
    match (source.contents ops index).items[n]? with
    | some it => it.member.ordinal = n ∧ r.1 = .ok (some it.member) ∧ At ops source index r.2 ⟨n + 1, some it, false⟩
    | none => r.1 = .ok none ∧ At ops source index r.2 ⟨n, none, !(source.contents ops index).rest.blank⟩ := by
  simp only [Kept.readThere, Cursor.readerMut, Cursor.label]
  split
  · rename_i it hit
    obtain ⟨s', s'', hread, hpay, hnext⟩ := h.next hit
    rw [hread]
    exact ⟨(readMember_some hread).2.1, rfl, .payload hpay hnext⟩
  · rename_i hit
    obtain ⟨s', hread, hblank⟩ := h.ended hit
    rw [hread]
    refine ⟨rfl, ?_⟩
    cases hb : (source.contents ops index).rest.blank with
    | true => exact .between (hblank hb)
    | false => exact .lost

theorem At.readHeader (h : At ops source index c p) (hfail : (source.contents ops index).failure = none)
    (hlost : p.lost = false) :
    let r := Kept.readHeader ops c
    match (source.contents ops index).items[p.next]? with
    | some it =>
      it.member.ordinal = p.next ∧ r.1 = .ok (some it.member) ∧ At ops source index r.2 ⟨p.next + 1, some it, false⟩
    | none => r.1 = .ok none ∧ At ops source index r.2 ⟨p.next, none, !(source.contents ops index).rest.blank⟩ := by
  obtain ⟨s, hahead, hsettle⟩ := h.settle hfail hlost
  have hthere := hahead.readThere
  rw [Kept.readHeader, hsettle]
  exact hthere

theorem At.skipData {n : Nat} {it : TarItem} (h : At ops source index c ⟨n, some it, false⟩) :
    (Kept.skipData c).1 = .ok () ∧ At ops source index (Kept.skipData c).2 ⟨n, none, false⟩ := by
  cases h with
  | payload hpay hahead =>
    rw [Kept.skipData_of_payload hpay]
    exact ⟨rfl, .between hahead⟩

theorem At.label_eq (h : At ops source index c p) : c.label = source.cursorLabel index := by
  cases h <;> rfl

theorem At.le (h : At ops source index c p) (hfail : (source.contents ops index).failure = none)
    (hlost : p.lost = false) : p.next ≤ (source.contents ops index).items.length := by
  obtain ⟨s, hahead, _⟩ := h.settle hfail hlost
  exact hahead.le

variable (ops source index) in
/-- The member with this number was found, or the end where there is none. -/
def Sought (ordinal : Nat) (r : Kept TarMember) : Prop :=
  match (source.contents ops index).items[ordinal]? with
  | some it => r.1 = .ok it.member ∧ At ops source index r.2 ⟨ordinal + 1, some it, false⟩
  | none => r.1 = .error (endedBefore (source.cursorLabel index) ordinal) ∧
      At ops source index r.2 ⟨(source.contents ops index).items.length, none, !(source.contents ops index).rest.blank⟩

/-- Reading on reaches the member that is asked for, or the end. -/
theorem At.seekFrom (hfail : (source.contents ops index).failure = none) {ordinal : Nat} :
    ∀ {fuel : Nat} {c : Cursor} {p : Place}, At ops source index c p → p.lost = false → p.next ≤ ordinal →
    ordinal < p.next + fuel →
    Sought ops source index ordinal (Kept.seekFrom ops ordinal fuel c) := by
  intro fuel
  induction fuel with
  | zero => intro c p _ _ hle hlt; omega
  | succ fuel ih =>
    intro c p h hlost hle hlt
    have hlength := h.le hfail hlost
    have hread := h.readHeader hfail hlost
    rw [Kept.seekFrom]
    cases hc : Kept.readHeader ops c with
    | mk r c' =>
      rw [hc] at hread
      cases hit : (source.contents ops index).items[p.next]? with
      | none =>
        rw [hit] at hread
        obtain ⟨rfl, hat⟩ := hread
        have hend : p.next = (source.contents ops index).items.length := by
          have := List.getElem?_eq_none_iff.mp hit
          omega
        have hnone : (source.contents ops index).items[ordinal]? = none :=
          List.getElem?_eq_none_iff.mpr (by omega)
        rw [Sought, hnone, ← hend, ← hat.label_eq]
        exact ⟨rfl, hat⟩
      | some it =>
        rw [hit] at hread
        obtain ⟨hord, rfl, hat⟩ := hread
        show Sought ops source index ordinal (if it.member.ordinal = ordinal then _ else _)
        by_cases heq : it.member.ordinal = ordinal
        · rw [if_pos heq, Sought, ← heq, hord, hit]
          exact ⟨rfl, hat⟩
        · obtain ⟨hskip, hskipped⟩ := hat.skipData
          rw [if_neg heq]
          cases hc' : Kept.skipData c' with
          | mk r c'' =>
            rw [hc'] at hskip hskipped
            cases hskip
            exact ih hskipped rfl (by simp only; omega) (by simp only; omega)

theorem At.seekTo (h : At ops source index c p) (hfail : (source.contents ops index).failure = none) {ordinal : Nat}
    (hallows : p.Allows (.seekTo ordinal)) : Sought ops source index ordinal (Kept.seekTo ops ordinal c) := by
  obtain ⟨s, hahead, hreopen⟩ := Kept.reopen_ahead hfail
  have hopen : At ops source index ⟨index, source, some s, 0, none⟩ ⟨0, none, false⟩ := .between hahead
  have hfirst : Sought ops source index ordinal (Kept.seekFrom ops ordinal (ordinal + 1) ⟨index, source, some s, 0, none⟩) :=
    At.seekFrom hfail hopen rfl (Nat.zero_le _) (by simp only; omega)
  unfold Kept.seekTo
  by_cases hback : (c.reader.isNone || decide (c.nextOrdinal > ordinal)) = true
  · rw [if_pos hback]
    cases h <;> rw [hreopen] <;> exact hfirst
  · rw [if_neg hback]
    simp only [Bool.or_eq_true, decide_eq_true_eq, not_or, Nat.not_lt] at hback
    have hnext : c.nextOrdinal = p.next := by cases h <;> rfl
    have hlost : p.lost = false := by
      refine Bool.eq_false_iff.mpr fun hlost => ?_
      have := hallows hlost
      simp only [Place.readsOn, decide_eq_false_iff_not] at this
      omega
    exact At.seekFrom hfail h hlost (by omega) (by omega)

theorem Kept.copyData_of_payload {s s' : Stream} {n size : Nat} {data : Bytes} (output : Output)
    (hpay : s.readExactPadded (source.cursorLabel index) size = .ok (data, s')) :
    Kept.copyData output ⟨index, source, some s, n, some size⟩ =
      let done : Cursor := ⟨index, source, some s', n, none⟩
      match output with
      | .takes => (.ok (data ++ zeros (paddingFor size)), done)
      | .failsAfter given => if 0 < given ∧ given ≤ size then (.error copyError, ⟨index, source, some (s.after given), n, none⟩)
        else (.ok (data ++ zeros (paddingFor size)), done)
      | .failsInPadding => if 0 < paddingFor size then (.error writeError, done)
        else (.ok (data ++ zeros (paddingFor size)), done) := by
  obtain ⟨_, hlength, _⟩ := Stream.readExactPadded_ok hpay
  have hreads : s.reads size = size := Nat.min_eq_left (by omega)
  have hwhole : ¬(s.bytes.length < size ∧ s.broken = true) := fun h => by have := h.1; omega
  simp only [Kept.copyData, Kept.takePending, Cursor.takePending, Kept.andThen, Cursor.readerMut, Cursor.label, hpay,
    hreads, if_neg hwhole]
  cases output <;> simp

theorem At.copyData {n : Nat} {it : TarItem} (h : At ops source index c ⟨n, some it, false⟩) (output : Output) :
    let r := Kept.answer .copied (Kept.copyData output c)
    let k := Place.call (source.cursorLabel index) (source.contents ops index) ⟨n, some it, false⟩ (.copyData output)
    r.1 = k.1 ∧ At ops source index r.2 k.2 := by
  cases h with
  | @payload s s' _ _ hpay hahead =>
    obtain ⟨hsize, hlength, hbroken⟩ := Stream.readExactPadded_ok hpay
    simp only [Kept.copyData_of_payload output hpay, Place.call]
    rw [← hsize]
    cases output with
    | takes => exact ⟨rfl, .between hahead⟩
    | failsInPadding =>
      simp only
      split
      · exact ⟨rfl, .between hahead⟩
      · exact ⟨rfl, .between hahead⟩
    | failsAfter given =>
      simp only
      split
      · refine ⟨rfl, ?_⟩
        by_cases hwhole : given < it.payload.length + paddingFor it.payload.length
        · simp only [hwhole, decide_true]
          exact .lost
        · -- the write that failed was the last one, and nothing pads the payload
          have hgiven : given = it.member.dataSize + paddingFor it.member.dataSize := by
            rw [← hsize]
            omega
          have hs' : s.after given = s' := hgiven ▸ Stream.after_of_readExactPadded hpay
          simp only [hwhole, decide_false, Kept.answer, hs']
          exact .between hahead
      · exact ⟨rfl, .between hahead⟩

/-- A call from a place that allows it is answered as the layer has it. -/
theorem Kept.call_simulates (hfail : (source.contents ops index).failure = none) :
    Simulates (At ops source index) Place.Allows (Kept.call ops)
      (Place.call (source.cursorLabel index) (source.contents ops index)) := by
  intro c p k h hallows
  cases k with
  | seekTo ordinal =>
    have hsought := h.seekTo hfail hallows
    unfold Sought at hsought
    simp only [Kept.call, Place.call, Kept.answer]
    cases hr : Kept.seekTo ops ordinal c with
    | mk r c' =>
      rw [hr] at hsought
      cases hit : (source.contents ops index).items[ordinal]? with
      | none =>
        rw [hit] at hsought
        obtain ⟨rfl, hat⟩ := hsought
        exact ⟨rfl, hat⟩
      | some it =>
        rw [hit] at hsought
        obtain ⟨rfl, hat⟩ := hsought
        exact ⟨rfl, hat⟩
  | readHeader =>
    have hlost : p.lost = false := Bool.eq_false_iff.mpr fun hlost => by cases hallows hlost
    have hread := h.readHeader hfail hlost
    simp only [Kept.call, Place.call, Kept.answer]
    cases hr : Kept.readHeader ops c with
    | mk r c' =>
      rw [hr] at hread
      cases hit : (source.contents ops index).items[p.next]? with
      | none =>
        rw [hit] at hread
        obtain ⟨rfl, hat⟩ := hread
        exact ⟨rfl, hat⟩
      | some it =>
        rw [hit] at hread
        obtain ⟨_, rfl, hat⟩ := hread
        exact ⟨rfl, hat⟩
  | skipData =>
    cases h with
    | closed => exact ⟨rfl, .closed⟩
    | between hahead => exact ⟨rfl, .between hahead⟩
    | lost => exact ⟨rfl, .lost⟩
    | payload hpay hahead =>
      simp only [Kept.call, Kept.skipData_of_payload hpay]
      exact ⟨rfl, .between hahead⟩
  | copyData output =>
    cases h with
    | closed => exact ⟨rfl, .closed⟩
    | between hahead => exact ⟨rfl, .between hahead⟩
    | lost => exact ⟨rfl, .lost⟩
    | payload hpay hahead => exact At.copyData (.payload hpay hahead) output

end simulation

/-! ## The cursors of a merge -/

section merge

variable (ops : HeaderOps) (request : MergeRequest)

/-- The cursors that pass two makes, as one service. -/
def mergeCursors : Service (Fin request.layers.length → Cursor) (Fin request.layers.length × Call) Answer :=
  .family fun _ => Kept.call ops

def newCursors (k : Fin request.layers.length) : Cursor := .new k (request.layers.get k)

/-- The layers as pass one decodes them. -/
def MergeRequest.layerContents (k : Fin request.layers.length) : Decoded := (request.layers.get k).contents ops k

def mergePlaces : Service (Fin request.layers.length → Place) (Fin request.layers.length × Call) Answer :=
  .family fun k => Place.call ((request.layers.get k).cursorLabel k) (request.layerContents ops k)

/-- A call that pass two makes of a cursor: it looks for what a plan names, and leaves or copies the payload. -/
def Planned (plan : MergePlan) (c : Fin request.layers.length × Call) : Prop :=
  (∃ (p : Bytes) (e : MergedEntry), plan.entries[p]? = some e ∧ e.layer = c.1 ∧ (c.2 = .seekTo e.ordinal ∨
      ∃ o size, plan.overrides[p]? = some (EmitMode.promote o size) ∧ c.2 = .seekTo o)) ∨
    c.2 = .skipData ∨ c.2 = .copyData .takes

variable {ops request} {plan : MergePlan}

theorem mergeCursors_simulates (hfail : ∀ k, (request.layerContents ops k).failure = none) :
    Simulates (fun cs ps => ∀ k, At ops (request.layers.get k) k (cs k) (ps k))
      (fun (ps : Fin request.layers.length → Place) c => (ps c.1).Allows c.2) (mergeCursors ops request)
      (mergePlaces ops request) :=
  Simulates.family fun k => Kept.call_simulates (hfail k)

theorem layerContents_failure (h : buildPlan request.limits (request.decoded ops) = .ok plan)
    (k : Fin request.layers.length) : (request.layerContents ops k).failure = none := by
  obtain ⟨hfail, _⟩ := buildPlan_entryOf h
  refine hfail ((request.layers.get k).decode ops k) (List.mem_of_getElem? (i := k) ?_)
  rw [MergeRequest.decoded_getElem?, List.getElem?_eq_getElem k.2]
  rfl

/-- What a plan names is in its layer. -/
theorem Planned.item (h : buildPlan request.limits (request.decoded ops) = .ok plan)
    {k : Fin request.layers.length} {o : Nat} (hc : Planned request plan (k, .seekTo o)) :
    ∃ it, (request.layerContents ops k).items[o]? = some it := by
  have hitem : ∀ i it, request.item ops k i = some it → (request.layerContents ops k).items[i]? = some it := by
    intro i it hit
    rw [MergeRequest.item, List.getElem?_eq_getElem k.2] at hit
    exact hit
  rcases hc with ⟨p, e, he, hlayer, hc⟩ | hc | hc
  · rcases hc with hc | ⟨o', size, hmode, hc⟩
    · cases hc
      obtain ⟨it, hold⟩ := holding_of_entry h he
      exact ⟨it, hitem _ it (hlayer ▸ hold.survives.2)⟩
    · cases hc
      obtain ⟨src, hsrc⟩ := promote_source h he hmode
      exact ⟨src, hitem _ src (hlayer ▸ hsrc)⟩
  · cases hc
  · cases hc

/-- A reader that is asked for what a plan names is never lost. -/
theorem mergePlaces_allows (h : buildPlan request.limits (request.decoded ops) = .ok plan)
    {calls : List (Fin request.layers.length × Call)} (hcalls : ∀ c ∈ calls, Planned request plan c) :
    (mergePlaces ops request).Allows (fun ps c => (ps c.1).Allows c.2) (fun _ => .start) calls := by
  refine @Service.allows_of_forall _ _ _ (mergePlaces ops request) _
    (fun ps : Fin request.layers.length → Place => ∀ k, (ps k).lost = false) calls ?_ _ (fun _ => rfl)
  rintro ps ⟨k, call⟩ hmem hlost
  refine ⟨fun hk => absurd (hlost k) (by simp [hk]), fun j => ?_⟩
  by_cases hj : j = k
  · subst hj
    have hplanned := hcalls _ hmem
    have hcall : (Place.call ((request.layers.get j).cursorLabel j) (request.layerContents ops j) (ps j) call).2.lost =
        false := by
      cases call with
      | seekTo o =>
        obtain ⟨it, hit⟩ := hplanned.item h
        simp [Place.call, hit]
      | readHeader =>
        rcases hplanned with ⟨p, e, _, _, hc | ⟨_, _, _, hc⟩⟩ | hc | hc <;> cases hc
      | skipData =>
        simp only [Place.call]
        split
        · rfl
        · exact hlost j
      | copyData output =>
        rcases hplanned with ⟨p, e, _, _, hc | ⟨_, _, _, hc⟩⟩ | hc | hc <;> cases hc
        simp only [Place.call]
        split
        · exact hlost j
        · rfl
    simpa [mergePlaces, Service.family] using hcall
  · simpa [mergePlaces, Service.family, hj] using hlost j

/-- A header that a reader gives is that of a member of a layer. -/
theorem header_of_mergePlaces {k : Fin request.layers.length} {p : Place} {call : Call} {m : TarMember}
    (h : (Place.call ((request.layers.get k).cursorLabel k) (request.layerContents ops k) p call).1 = .header (some m)) :
    ∃ it ∈ (request.layerContents ops k).items, it.member = m := by
  cases call with
  | seekTo o =>
    simp only [Place.call] at h
    split at h
    · rename_i it hit
      cases h
      exact ⟨it, List.mem_of_getElem? hit, rfl⟩
    · cases h
  | readHeader =>
    simp only [Place.call] at h
    split at h
    · rename_i it hit
      cases h
      exact ⟨it, List.mem_of_getElem? hit, rfl⟩
    · cases h
  | skipData =>
    simp only [Place.call] at h
    split at h <;> cases h
  | copyData output =>
    simp only [Place.call] at h
    split at h
    · cases h
    · split at h
      · split at h <;> cases h
      · split at h <;> cases h
      · cases h

/-- **The cursors of a merge**: whatever is called of them, and in whatever order, they answer as readers do that have the
members of their layers before them, as long as none reads on from where it is lost; so every header is that of a member.
What pass two calls never leads there, and what it is given at a path is the member that pass one planned there. -/
theorem cursors_exact (ops : HeaderOps) (request : MergeRequest)
    (hfail : ∀ k, (request.layerContents ops k).failure = none) :
    (∀ calls : List (Fin request.layers.length × Call),
      (mergePlaces ops request).Allows (fun ps c => (ps c.1).Allows c.2) (fun _ => .start) calls →
      (mergeCursors ops request).answers (newCursors request) calls =
          (mergePlaces ops request).answers (fun _ => .start) calls ∧
        ∀ m, Answer.header (some m) ∈ (mergeCursors ops request).answers (newCursors request) calls →
          ∃ k, ∃ it ∈ (request.layerContents ops k).items, it.member = m) ∧
    ∀ plan, buildPlan request.limits (request.decoded ops) = .ok plan →
      (∀ calls, (∀ c ∈ calls, Planned request plan c) →
        (mergePlaces ops request).Allows (fun ps c => (ps c.1).Allows c.2) (fun _ => .start) calls) ∧
      ∀ (p : Bytes) (e : MergedEntry), plan.entries[p]? = some e → ∃ (hk : e.layer < request.layers.length) (it : TarItem),
        (request.layerContents ops ⟨e.layer, hk⟩).items[e.ordinal]? = some it ∧
          rawComponents it.member.path = components p ∧ classifyEntry it.member.entryType = e.kind := by
  refine ⟨fun calls hcalls => ?_, fun plan h => ⟨fun calls => mergePlaces_allows h, fun p e he => ?_⟩⟩
  · have hanswers : (mergeCursors ops request).answers (newCursors request) calls = _ :=
      (mergeCursors_simulates hfail).answers_eq (fun k => At.closed) hcalls
    refine ⟨hanswers, fun m hm => ?_⟩
    rw [hanswers] at hm
    refine @Service.forall_answers _ _ _ (mergePlaces ops request) (fun a => ∀ m, a = .header (some m) → ∃ k,
      ∃ it ∈ (request.layerContents ops k).items, it.member = m) ?_ _ _ _ hm m rfl
    rintro ps ⟨k, call⟩ m hm
    exact ⟨k, header_of_mergePlaces hm⟩
  · obtain ⟨it, hold⟩ := holding_of_entry h he
    have hitem := hold.survives.2
    obtain ⟨source, hsource, hit⟩ := Option.bind_eq_some_iff.mp hitem
    obtain ⟨hk, rfl⟩ := List.getElem?_eq_some_iff.mp hsource
    exact ⟨hk, it, hit, hold.path, hold.kind.symm⟩

end merge

theorem cursors_exact_shadowedLinks : ∃ plan, buildPlan shadowedLinks.limits (shadowedLinks.decoded Ustar.ops) = .ok plan ∧
    ∀ calls, (∀ c ∈ calls, Planned shadowedLinks plan c) →
      (mergeCursors Ustar.ops shadowedLinks).answers (newCursors shadowedLinks) calls =
        (mergePlaces Ustar.ops shadowedLinks).answers (fun _ => .start) calls := by
  obtain ⟨plan, h⟩ := Res.exists_ok (x := buildPlan shadowedLinks.limits (shadowedLinks.decoded Ustar.ops))
    (by decide +kernel)
  obtain ⟨hanswers, hplan⟩ := cursors_exact Ustar.ops shadowedLinks (layerContents_failure h)
  exact ⟨plan, h, fun calls hcalls => (hanswers calls ((hplan plan h).1 calls hcalls)).1⟩

/-! ## Reading on -/

/-- The path of the member that was found. -/
def Answer.path : Answer → Option Bytes
  | .header m => m.map (·.path)
  | _ => none

/-- A second member behind the zero block that ends the archive. -/
def hiddenMember : LayerSource := ⟨"l0", .ok
  ⟨Ustar.member "a" .regular "" [] ++ zeros 512 ++ Ustar.member "b" .regular "" [] ++ zeros 1024, false⟩⟩

/-- A file that holds a tar header in its second block. -/
def nestedMember : LayerSource :=
  Ustar.layer "l0" [Ustar.member "a" .regular "" (zeros 512 ++ Ustar.member "b" .regular "" [])]

/-- A cursor that has reported the end finds a member that the layer does not have, and after a copy that failed a
payload is read as a header. -/
theorem cursor_reads_on :
    ((hiddenMember.contents Ustar.ops 0).failure = none ∧
      (hiddenMember.contents Ustar.ops 0).items.map (·.member.path) = [bytes "a"] ∧
      ((Kept.call Ustar.ops).answers (.new 0 hiddenMember) [.seekTo 1, .seekTo 1]).map Answer.path =
        [none, some (bytes "b")]) ∧
    (nestedMember.contents Ustar.ops 0).failure = none ∧
      (nestedMember.contents Ustar.ops 0).items.map (·.member.path) = [bytes "a"] ∧
      ((Kept.call Ustar.ops).answers (.new 0 nestedMember) [.seekTo 0, .copyData (.failsAfter 512), .readHeader]).map
        Answer.path = [some (bytes "a"), none, some (bytes "b")] := by
  decide +kernel

end Firestone.Oci
