import Firestone.Oci.Tar

/-!
# Reading tar streams back

* `readMemberFrom_append` — what is written as extension headers and a header block is read as one member.
* `readMember_some` — a member that is read has sound headers, and its names are those its headers give.
* `decodeAt_eq` — a stream is decoded member by member, without regard to fuel.
* `Cursor.seekTo_spec` — a cursor over a stream that decodes stops on the member it is asked for.
-/

namespace Firestone.Oci

open Firestone.Lib

/-! ## Blocks and payloads -/

theorem length_zeros (n : Nat) : (zeros n).length = n := List.length_replicate

theorem Stream.readBlock_append (label : String) (b : Block) (rest : Bytes) (broken : Bool) :
    Stream.readBlock label ⟨b.1 ++ rest, broken⟩ = .ok (some b, ⟨rest, broken⟩) := by
  have htake : (b.1 ++ rest).take 512 = b.1 := List.take_left' b.2
  have hdrop : (b.1 ++ rest).drop 512 = rest := List.drop_left' b.2
  unfold Stream.readBlock
  simp only [htake, hdrop]
  rw [dif_pos b.2]

/-- A block that is read was at the front of the stream. -/
theorem Stream.readBlock_some {label : String} {s s' : Stream} {b : Block}
    (h : s.readBlock label = .ok (some b, s')) : s = ⟨b.1 ++ s'.bytes, s'.broken⟩ := by
  unfold Stream.readBlock at h
  split at h
  · cases h
    simp
  · split at h
    · cases h
    · unfold Stream.short at h
      split at h <;> cases h

theorem Stream.readExactPadded_append (label : String) (data rest : Bytes) (broken : Bool) :
    Stream.readExactPadded label data.length ⟨data ++ zeros (paddingFor data.length) ++ rest, broken⟩ =
      .ok (data, ⟨rest, broken⟩) := by
  have hlen : (data ++ zeros (paddingFor data.length)).length = data.length + paddingFor data.length := by
    rw [List.length_append, length_zeros]
  have htake : (data ++ zeros (paddingFor data.length) ++ rest).take data.length = data := by
    rw [List.append_assoc, List.take_left]
  have hdrop : (data ++ zeros (paddingFor data.length) ++ rest).drop (data.length + paddingFor data.length) = rest := by
    rw [← hlen, List.drop_left]
  unfold Stream.readExactPadded
  simp only [htake, hdrop]
  rw [if_neg, if_neg] <;> simp only [List.length_append, length_zeros] <;> omega

/-- A payload that is read stands at the front of the stream, followed by as many bytes as its padding has. -/
theorem Stream.readExactPadded_ok {label : String} {size : Nat} {s s' : Stream} {data : Bytes}
    (h : s.readExactPadded label size = .ok (data, s')) :
    data.length = size ∧ s.bytes.length = size + paddingFor size + s'.bytes.length ∧ s'.broken = s.broken := by
  unfold Stream.readExactPadded at h
  split at h
  · unfold Stream.short at h
    split at h <;> cases h
  · split at h
    · unfold Stream.short at h
      split at h <;> cases h
    · cases h
      refine ⟨?_, ?_, rfl⟩
      · simp only [List.length_take]
        omega
      · simp only [List.length_drop]
        omega

/-! ## Headers -/

section ops

variable (ops : HeaderOps)

/-- The block is a header that the reader takes, of this type and size. -/
structure Readable (block : Block) (entryType : EntryType) (size : Nat) : Prop where
  nonzero : block.isZero = false
  checksum : ∃ stored, ops.cksum block = some stored ∧ checksumMatches block stored = true
  type : ops.entryType block = entryType
  notSparse : entryType ≠ .gnuSparse
  size : ops.entrySize block = some size

variable {ops}

theorem checkHeader_of_readable {block : Block} {entryType : EntryType} {size : Nat}
    (h : Readable ops block entryType size) (label : String) :
    checkHeader ops label block = .ok (entryType, size) := by
  obtain ⟨stored, hstored, hmatch⟩ := h.checksum
  have htype := h.type
  have hsparse : ops.entryType block ≠ .gnuSparse := htype ▸ h.notSparse
  simp [checkHeader, hstored, hmatch, htype, h.notSparse, h.size]

theorem readable_of_checkHeader {label : String} {block : Block} {entryType : EntryType} {size : Nat}
    (hzero : block.isZero = false) (h : checkHeader ops label block = .ok (entryType, size)) :
    Readable ops block entryType size := by
  unfold checkHeader at h
  cases hstored : ops.cksum block with
  | none => rw [hstored] at h; cases h
  | some stored =>
    simp only [hstored] at h
    split at h
    · cases h
    rename_i hmatch
    split at h
    · cases h
    rename_i hsparse
    cases hsize : ops.entrySize block with
    | none => rw [hsize] at h; cases h
    | some n =>
      rw [hsize] at h
      cases h
      exact ⟨hzero, ⟨stored, hstored, by simpa using hmatch⟩, rfl, hsparse, hsize⟩

variable (ops)

/-- An extension header that the reader keeps. -/
structure ExtensionHeader.Sound (e : ExtensionHeader) : Prop where
  readable : Readable ops e.header (ops.entryType e.header) e.data.length
  extension : (ops.entryType e.header).isExtension = true
  notGlobal : ops.entryType e.header ≠ .xGlobalHeader
  fits : e.data.length ≤ maxExtensionBytes

/-- The names that a list of extension headers gives, from those already read. -/
def readNames (names : ExtensionNames) : List ExtensionHeader → Res ExtensionNames
  | [] => .ok names
  | e :: es => do
    let names ← names.read (ops.entryType e.header) e.data
    readNames names es

/-- A member whose headers read back as themselves. -/
structure TarMember.Sound (m : TarMember) : Prop where
  extensions : ∀ e ∈ m.extensions, e.Sound ops
  readable : Readable ops m.header m.entryType m.dataSize
  ordinary : m.entryType.isExtension = false
  names : ∃ names, readNames ops .empty m.extensions = .ok names ∧ m.path = names.path ops m.header ∧
    m.link = names.link ops m.header

variable {ops}

theorem readNames_append {names : ExtensionNames} {es es' : List ExtensionHeader} :
    readNames ops names (es ++ es') = (readNames ops names es >>= fun names => readNames ops names es') := by
  induction es generalizing names with
  | nil => rfl
  | cons e es ih =>
    show (names.read _ _ >>= fun names => readNames ops names (es ++ es')) = (names.read _ _ >>= _) >>= _
    rw [bind_assoc]
    congr 1
    funext names'
    exact ih

/-! ## Members -/

theorem length_writeExtension (e : ExtensionHeader) :
    (writeExtension e).length = 512 + e.data.length + paddingFor e.data.length := by
  simp [writeExtension, length_zeros, e.header.2, Nat.add_assoc]

/-- Extension headers and a header block are read as one member. -/
theorem readMemberFrom_append {label : String} {ordinal : Nat} {header : Block} {entryType : EntryType} {size : Nat}
    (hheader : Readable ops header entryType size) (hord : entryType.isExtension = false) (rest : Bytes)
    (broken : Bool) : ∀ {es acc : List ExtensionHeader} {names names' : ExtensionNames} {fuel : Nat},
    (∀ e ∈ es, e.Sound ops) → readNames ops names es = .ok names' → es.length < fuel →
    readMemberFrom ops label ordinal fuel acc names ⟨es.flatMap writeExtension ++ (header.1 ++ rest), broken⟩ =
      .ok (some ⟨header, acc ++ es, names'.path ops header, names'.link ops header, entryType, size, ordinal⟩,
        ⟨rest, broken⟩) := by
  intro es
  induction es with
  | nil =>
    intro acc names names' fuel _ hnames hfuel
    obtain ⟨fuel, rfl⟩ : ∃ n, fuel = n + 1 := ⟨fuel - 1, by simp at hfuel; omega⟩
    cases hnames
    simp only [List.flatMap_nil, List.nil_append, List.append_nil, readMemberFrom, Stream.readBlock_append]
    show (if header.isZero = true then _ else _) = _
    rw [hheader.nonzero, if_neg (by simp), checkHeader_of_readable hheader]
    show (if entryType.isExtension = true then _ else _) = _
    rw [hord, if_neg (by simp)]
    rfl
  | cons e es ih =>
    intro acc names names' fuel hsound hnames hfuel
    obtain ⟨fuel, rfl⟩ : ∃ n, fuel = n + 1 := ⟨fuel - 1, by simp at hfuel; omega⟩
    have he := hsound e List.mem_cons_self
    obtain ⟨names₁, hread, hrest⟩ := Res.bind_ok hnames
    have hbytes : (e :: es).flatMap writeExtension ++ (header.1 ++ rest) =
        e.header.1 ++ (e.data ++ zeros (paddingFor e.data.length) ++
          (es.flatMap writeExtension ++ (header.1 ++ rest))) := by
      simp [writeExtension]
    rw [hbytes, readMemberFrom, Stream.readBlock_append]
    show (if e.header.isZero = true then _ else _) = _
    rw [he.readable.nonzero, if_neg (by simp), checkHeader_of_readable he.readable]
    show (if (ops.entryType e.header).isExtension = true then _ else _) = _
    rw [he.extension, if_pos rfl, if_neg (Nat.not_lt.mpr he.fits), Stream.readExactPadded_append]
    show (names.read (ops.entryType e.header) e.data >>= _) = _
    rw [hread]
    show readMemberFrom ops label ordinal fuel _ names₁ _ = _
    have hlt : es.length < fuel := by simp at hfuel; omega
    rw [if_neg he.notGlobal, ih (fun e' h' => hsound e' (List.mem_cons_of_mem _ h')) hrest hlt, List.append_assoc]
    rfl

/-- What a member that is read came from. -/
theorem readMemberFrom_some {label : String} {ordinal : Nat} {m : TarMember} {s' : Stream} :
    ∀ {fuel : Nat} {acc : List ExtensionHeader} {names : ExtensionNames} {s : Stream},
    readMemberFrom ops label ordinal fuel acc names s = .ok (some m, s') →
    (∃ es names', m.extensions = acc ++ es ∧ (∀ e ∈ es, e.Sound ops) ∧ readNames ops names es = .ok names' ∧
      m.path = names'.path ops m.header ∧ m.link = names'.link ops m.header) ∧
    Readable ops m.header m.entryType m.dataSize ∧ m.entryType.isExtension = false ∧ m.ordinal = ordinal ∧
    s'.bytes.length < s.bytes.length := by
  intro fuel
  induction fuel with
  | zero => intro acc names s h; cases h
  | succ fuel ih =>
    intro acc names s h
    obtain ⟨⟨block, s₁⟩, hblock, h⟩ := Res.bind_ok h
    cases block with
    | none =>
      simp only at h
      split at h <;> cases h
    | some block =>
      have hs := Stream.readBlock_some hblock
      have hlen : s.bytes.length = 512 + s₁.bytes.length := by rw [hs]; simp [block.2]
      simp only at h
      split at h
      · cases h
      rename_i hzero
      obtain ⟨⟨entryType, size⟩, hcheck, h⟩ := Res.bind_ok h
      have hreadable := readable_of_checkHeader (Bool.eq_false_iff.mpr hzero) hcheck
      simp only at h
      split at h
      · rename_i hext
        split at h
        · cases h
        rename_i hfits
        obtain ⟨⟨data, s₂⟩, hdata, h⟩ := Res.bind_ok h
        obtain ⟨names₁, hnames, h⟩ := Res.bind_ok h
        obtain ⟨hsize, hrest, _⟩ := Stream.readExactPadded_ok hdata
        obtain ⟨⟨es, names', hes, hsound, hread, hpath, hlink⟩, hm, hord, hordinal, hlt⟩ := ih h
        refine ⟨?_, hm, hord, hordinal, by simp only at hlt; omega⟩
        have htype := hreadable.type
        split at hes
        · -- a global header leaves the names as they are
          rename_i hglobal
          rw [hglobal] at hnames
          cases hnames
          exact ⟨es, names', hes, hsound, hread, hpath, hlink⟩
        · rename_i hglobal
          refine ⟨⟨block, data⟩ :: es, names', by rw [hes]; simp, ?_, ?_, hpath, hlink⟩
          · intro e he
            rcases List.mem_cons.mp he with rfl | he
            · exact ⟨by rw [htype, hsize]; exact hreadable, by rw [htype]; exact hext, by rw [htype]; exact hglobal,
                by simp only [hsize]; omega⟩
            · exact hsound e he
          · show (names.read (ops.entryType block) data >>= _) = _
            rw [htype, hnames]
            exact hread
      · rename_i hext
        cases h
        exact ⟨⟨[], names, by simp, by simp, rfl, rfl, rfl⟩, hreadable, by simpa using hext, rfl, by omega⟩

/-- A member that is read is sound, and the stream is shorter after it. -/
theorem readMember_some {label : String} {ordinal : Nat} {s s' : Stream} {m : TarMember}
    (h : readMember ops label ordinal s = .ok (some m, s')) :
    m.Sound ops ∧ m.ordinal = ordinal ∧ s'.bytes.length < s.bytes.length := by
  obtain ⟨⟨es, names, hes, hsound, hread, hpath, hlink⟩, hm, hord, hordinal, hlt⟩ := readMemberFrom_some h
  rw [List.nil_append] at hes
  exact ⟨⟨hes ▸ hsound, hm, hord, names, hes ▸ hread, hpath, hlink⟩, hordinal, hlt⟩

/-! ## Whole streams -/

theorem decodeFrom_fuel {label : String} : ∀ {fuel fuel' n : Nat} {s : Stream}, s.bytes.length < fuel →
    s.bytes.length < fuel' → decodeFrom ops label fuel n s = decodeFrom ops label fuel' n s := by
  intro fuel
  induction fuel with
  | zero => intro fuel' n s h; omega
  | succ fuel ih =>
    intro fuel' n s h h'
    obtain ⟨fuel', rfl⟩ : ∃ k, fuel' = k + 1 := ⟨fuel' - 1, by omega⟩
    rw [decodeFrom, decodeFrom]
    cases hread : readMember ops label n s with
    | error e => rfl
    | ok r =>
      obtain ⟨m, s'⟩ := r
      cases m with
      | none => rfl
      | some m =>
        obtain ⟨_, _, hlt⟩ := readMember_some hread
        simp only
        cases hpay : s'.readExactPadded label m.dataSize with
        | error e => rfl
        | ok r =>
          obtain ⟨payload, s''⟩ := r
          obtain ⟨_, hlen, _⟩ := Stream.readExactPadded_ok hpay
          simp only
          rw [@ih fuel' (n + 1) s'' (by omega) (by omega)]

/-- A stream is decoded one member at a time. -/
theorem decodeAt_eq (label : String) (n : Nat) (s : Stream) : decodeAt ops label n s =
    match readMember ops label n s with
    | .error e => ⟨[], 0, s, some e⟩
    | .ok (none, s') => ⟨[], s.bytes.length - s'.bytes.length, s', none⟩
    | .ok (some member, s') =>
      match s'.readExactPadded label member.dataSize with
      | .error e => ⟨[⟨member, s'.bytes, s.bytes.length - s'.bytes.length⟩], 0, s', some e⟩
      | .ok (payload, s'') =>
        (decodeAt ops label (n + 1) s'').cons ⟨member, payload, s.bytes.length - s'.bytes.length⟩ := by
  rw [decodeAt, decodeFrom]
  cases hread : readMember ops label n s with
  | error e => rfl
  | ok r =>
    obtain ⟨m, s'⟩ := r
    cases m with
    | none => rfl
    | some m =>
      obtain ⟨_, _, hlt⟩ := readMember_some hread
      simp only
      cases hpay : s'.readExactPadded label m.dataSize with
      | error e => rfl
      | ok r =>
        obtain ⟨payload, s''⟩ := r
        obtain ⟨_, hlen, _⟩ := Stream.readExactPadded_ok hpay
        have hfuel : decodeFrom ops label s.bytes.length (n + 1) s'' = decodeAt ops label (n + 1) s'' :=
          decodeFrom_fuel (by omega) (Nat.lt_succ_self _)
        simp only [hfuel]

/-! ## Cursors -/

variable (ops) in
/-- The stream holds the members from number `n` on, and ends well. -/
def Rest (label : String) (items : List TarItem) (n : Nat) (s : Stream) : Prop :=
  (decodeAt ops label n s).items = items.drop n ∧ (decodeAt ops label n s).failure = none

/-- The next member of a stream that decodes can be read, with its payload. -/
theorem Rest.next {label : String} {items : List TarItem} {n : Nat} {s : Stream} {it : TarItem}
    (h : Rest ops label items n s) (hit : items[n]? = some it) :
    ∃ s' s'', readMember ops label n s = .ok (some it.member, s') ∧
      s'.readExactPadded label it.member.dataSize = .ok (it.payload, s'') ∧ Rest ops label items (n + 1) s'' := by
  obtain ⟨hitems, hfail⟩ := h
  have hdrop : items.drop n = it :: items.drop (n + 1) := by
    obtain ⟨hlt, rfl⟩ := List.getElem?_eq_some_iff.mp hit
    exact List.drop_eq_getElem_cons hlt
  rw [decodeAt_eq] at hitems hfail
  cases hread : readMember ops label n s with
  | error e => rw [hread] at hfail; cases hfail
  | ok r =>
    obtain ⟨m, s'⟩ := r
    rw [hread] at hitems hfail
    cases m with
    | none =>
      rw [hdrop] at hitems
      cases hitems
    | some m =>
      simp only at hitems hfail
      cases hpay : s'.readExactPadded label m.dataSize with
      | error e => rw [hpay] at hfail; cases hfail
      | ok r =>
        obtain ⟨payload, s''⟩ := r
        rw [hpay] at hitems hfail
        have hcons : (⟨m, payload, s.bytes.length - s'.bytes.length⟩ : TarItem) ::
            (decodeAt ops label (n + 1) s'').items = it :: items.drop (n + 1) := hitems.trans hdrop
        obtain ⟨rfl, hrest⟩ := List.cons.inj hcons
        exact ⟨s', s'', rfl, hpay, hrest, hfail⟩

/-- Every member of a stream that decodes is sound, knows its number and is as long as its header says. -/
theorem Rest.item {label : String} {items : List TarItem} : ∀ {k n : Nat} {s : Stream} {it : TarItem},
    Rest ops label items n s → items[n + k]? = some it →
    it.member.Sound ops ∧ it.member.ordinal = n + k ∧ it.payload.length = it.member.dataSize := by
  intro k
  induction k with
  | zero =>
    intro n s it h hit
    obtain ⟨s', s'', hread, hpay, _⟩ := h.next hit
    obtain ⟨hsound, hord, _⟩ := readMember_some hread
    exact ⟨hsound, hord, (Stream.readExactPadded_ok hpay).1⟩
  | succ k ih =>
    intro n s it h hit
    have hlt : n < items.length := by
      have := (List.getElem?_eq_some_iff.mp hit).1
      omega
    obtain ⟨_, s'', _, _, hnext⟩ := h.next (List.getElem?_eq_getElem hlt)
    have heq : n + (k + 1) = n + 1 + k := by omega
    rw [heq] at hit ⊢
    exact ih hnext hit

section cursor

variable (ops) (source : LayerSource) (index : Nat)

/-- The cursor of a layer, not opened or standing before a member. -/
inductive Cursor.Idle : Cursor → Prop
  | closed : Idle ⟨index, source, none, 0, none⟩
  | ready {s : Stream} {n : Nat} (h : Rest ops (source.cursorLabel index) (source.contents ops index).items n s) :
      Idle ⟨index, source, some s, n, none⟩

/-- The cursor of a layer, standing before the payload of a member. -/
inductive Cursor.On (it : TarItem) : Cursor → Prop
  | intro {s s' : Stream} {n : Nat}
      (hpay : s.readExactPadded (source.cursorLabel index) it.member.dataSize = .ok (it.payload, s'))
      (h : Rest ops (source.cursorLabel index) (source.contents ops index).items n s') :
      On it ⟨index, source, some s, n, some it.member.dataSize⟩

variable {ops source index} {it : TarItem} {c : Cursor}

theorem Cursor.skipData_eq {s s' : Stream} {n size : Nat} {data : Bytes}
    (hpay : s.readExactPadded (source.cursorLabel index) size = .ok (data, s')) :
    Cursor.skipData ⟨index, source, some s, n, some size⟩ = .ok ⟨index, source, some s', n, none⟩ := by
  simp only [Cursor.skipData, Cursor.takePending, Cursor.readerMut, Cursor.label]
  show (Stream.readExactPadded _ _ _ >>= _) = _
  rw [hpay]
  rfl

theorem Cursor.On.skipData (h : Cursor.On ops source index it c) :
    ∃ c', c.skipData = .ok c' ∧ Cursor.Idle ops source index c' := by
  obtain ⟨hpay, hrest⟩ := h
  exact ⟨⟨index, source, some _, _, none⟩, Cursor.skipData_eq hpay, .ready hrest⟩

/-- The payload that is copied is the member's. -/
theorem Cursor.On.copyData (h : Cursor.On ops source index it c) :
    ∃ c', c.copyData = .ok (it.payload, c') ∧ Cursor.Idle ops source index c' := by
  obtain @⟨s, s', n, hpay, hrest⟩ := h
  obtain ⟨_, hlen, _⟩ := Stream.readExactPadded_ok hpay
  refine ⟨⟨index, source, some _, _, none⟩, ?_, .ready hrest⟩
  simp only [Cursor.copyData, Cursor.takePending, Cursor.readerMut, Cursor.label]
  show (if s.bytes.length < it.member.dataSize ∧ s.broken = true then _ else _) = _
  rw [if_neg fun h => by have := h.1; omega]
  show (Stream.readExactPadded _ _ _ >>= _) = _
  rw [hpay]
  rfl

/-- Reading on from an earlier member reaches the one that is asked for. -/
theorem Cursor.seekFrom_spec {ordinal : Nat} (hit : (source.contents ops index).items[ordinal]? = some it) :
    ∀ (fuel : Nat) {n : Nat} {s : Stream}, Rest ops (source.cursorLabel index) (source.contents ops index).items n s →
    n ≤ ordinal → ordinal < n + fuel →
    ∃ c', Cursor.seekFrom ops ordinal fuel ⟨index, source, some s, n, none⟩ = .ok (it.member, c') ∧
      Cursor.On ops source index it c' := by
  intro fuel
  induction fuel with
  | zero => intro n s _ h h'; omega
  | succ fuel ih =>
    intro n s hrest hle hlt
    have hn : n < (source.contents ops index).items.length := by
      have := (List.getElem?_eq_some_iff.mp hit).1
      omega
    obtain ⟨s', s'', hread, hpay, hnext⟩ := hrest.next (List.getElem?_eq_getElem hn)
    obtain ⟨_, hord, _⟩ := readMember_some hread
    have hheader : Cursor.readHeader ops ⟨index, source, some s, n, none⟩ =
        .ok (some ((source.contents ops index).items[n]).member,
          ⟨index, source, some s', n + 1, some ((source.contents ops index).items[n]).member.dataSize⟩) := by
      show (readMember ops (source.cursorLabel index) n s >>= _) = _
      rw [hread]
      rfl
    by_cases heq : n = ordinal
    · subst heq
      rw [List.getElem?_eq_getElem hn, Option.some.injEq] at hit
      rw [hit] at hheader hpay hord
      refine ⟨_, ?_, .intro hpay hnext⟩
      rw [Cursor.seekFrom, hheader]
      show (if it.member.ordinal = n then _ else _) = _
      rw [if_pos hord]
      rfl
    · obtain ⟨c', hseek, hon⟩ := ih hnext (by omega) (by omega)
      refine ⟨c', ?_, hon⟩
      rw [Cursor.seekFrom, hheader]
      show (if ((source.contents ops index).items[n]).member.ordinal = ordinal then _ else _) = _
      rw [if_neg (by rw [hord]; exact heq)]
      show (Cursor.skipData _ >>= _) = _
      rw [Cursor.skipData_eq hpay]
      exact hseek

/-- The whole of a layer that decodes is what its stream holds. -/
theorem LayerSource.contents_rest (h : (source.contents ops index).failure = none) :
    ∃ s, source.stream = .ok s ∧ Rest ops (source.cursorLabel index) (source.contents ops index).items 0 s := by
  cases hs : source.stream with
  | error e => simp [LayerSource.contents, hs] at h
  | ok s =>
    refine ⟨s, rfl, ?_⟩
    simp only [LayerSource.contents, hs] at h ⊢
    exact ⟨rfl, h⟩

/-- A cursor over a layer that decodes stops on the member it is asked for. -/
theorem Cursor.Idle.seekTo (hc : Cursor.Idle ops source index c) (hfail : (source.contents ops index).failure = none)
    {ordinal : Nat} (hit : (source.contents ops index).items[ordinal]? = some it) :
    ∃ c', c.seekTo ops ordinal = .ok (it.member, c') ∧ Cursor.On ops source index it c' := by
  obtain ⟨s₀, hs₀, hrest₀⟩ := LayerSource.contents_rest hfail
  obtain ⟨c₀, hseek₀, hon₀⟩ := Cursor.seekFrom_spec hit (ordinal + 1) hrest₀ (by omega) (by omega)
  have hreopen : ∀ r n p, Cursor.reopen ⟨index, source, r, n, p⟩ = .ok ⟨index, source, some s₀, 0, none⟩ := by
    intro r n p
    show (source.stream >>= _) = _
    rw [hs₀]
    rfl
  cases hc with
  | closed =>
    refine ⟨c₀, ?_, hon₀⟩
    show (Cursor.reopen _ >>= _) = _
    rw [hreopen]
    exact hseek₀
  | @ready s n hrest =>
    by_cases hgt : n > ordinal
    · refine ⟨c₀, ?_, hon₀⟩
      simp only [Cursor.seekTo, hgt, decide_true, Bool.or_true, if_true, hreopen]
      exact hseek₀
    · obtain ⟨c', hseek, hon⟩ := Cursor.seekFrom_spec hit (ordinal + 1) hrest (by omega) (by omega)
      refine ⟨c', ?_, hon⟩
      simp only [Cursor.seekTo, hgt, decide_false, Bool.or_false, Option.isNone_some, Bool.false_eq_true, if_false]
      exact hseek

end cursor

end ops

end Firestone.Oci
