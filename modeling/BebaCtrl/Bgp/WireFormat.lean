import BebaCtrl.Bgp.Packet

/-!
# Well-formed messages

The messages that are parsed without an exception and in which nothing is longer than what holds it,
given by a grammar: withdrawn routes, path attributes, prefixes, optional parameters and
capabilities are sequences of items that fill their container.

For each kind of item there is the header at its front, and the condition for its value. What the
parsers accept is more than that, since they cut values that overrun their container.
-/

namespace BebaCtrl.Bgp.Wire

open List Option

/-! ## Prefixes -/

def prefixHead (buf : Bytes) : Option (ItemHeader Nat) :=
  if buf.length < 1 then none else some ⟨uint buf 0 1, 1, (uint buf 0 1 + 7) / 8⟩

/-- `k` labels, of which the last one is the bottom of the stack, and then at least one byte. -/
inductive Labelled : Nat → Bytes → Bytes → Prop where
  | bottom {bin} : 3 < bin.length → isBottom (uint bin 0 3) → Labelled 1 bin (bin.drop 3)
  | push {k bin rest} : ¬isBottom (uint bin 0 3) → Labelled k (bin.drop 3) rest →
      Labelled (k + 1) bin rest

/-- The labels may be missing. -/
def LabelledOk (AddrOk : Bytes → Prop) (bits : Nat) (value : Bytes) : Prop :=
  (∃ k rest, Labelled k value rest ∧ 24 * k < bits ∧ AddrOk rest) ∨
    (∀ k rest, ¬Labelled k value rest) ∧ 0 < bits ∧ AddrOk value

/-- A route distinguisher of a known type, and then an address. -/
def VpnOk (size : Nat) (bin : Bytes) : Prop :=
  8 ≤ bin.length ∧ uint bin 0 2 ≤ 2 ∧ bin.length ≤ 8 + size

def PrefixOk (bits : Nat) (value : Bytes) : AddrClass → Prop
  | .ip => value.length ≤ 4
  | .ip6 => value.length ≤ 16
  | .labelledIp => LabelledOk (fun bin => bin.length ≤ 4) bits value
  | .labelledIp6 => LabelledOk (fun bin => bin.length ≤ 16) bits value
  | .vpnIp => LabelledOk (fun bin => 64 < bits ∧ VpnOk 4 bin) bits value
  | .vpnIp6 => LabelledOk (fun bin => 64 < bits ∧ VpnOk 16 bin) bits value
  | .rtc => False
  | .bin => True

def PrefixesOk (cls : AddrClass) : Bytes → Prop :=
  Sequence prefixHead fun bits value _ => PrefixOk bits value cls

def PrefixesOverrun : Bytes → Prop := Overruns prefixHead fun _ _ => False

theorem prefixHead_eq_some {buf : Bytes} {h : ItemHeader Nat} :
    prefixHead buf = some h ↔
      1 ≤ buf.length ∧ h = ⟨uint buf 0 1, 1, (uint buf 0 1 + 7) / 8⟩ := by
  unfold prefixHead
  grind

variable {k : Nat} {bin rest : Bytes}

theorem Labelled.length_lt (h : Labelled k bin rest) :
    bin.length = rest.length + 3 * k ∧ 0 < rest.length ∧ 0 < k := by
  induction h with
  | bottom hlen _ =>
    simp only [length_drop]
    omega
  | push _ _ ih =>
    simp only [length_drop] at ih
    omega

theorem Labelled.unique {k' : Nat} {rest' : Bytes} (h : Labelled k bin rest)
    (h' : Labelled k' bin rest') : k = k' ∧ rest = rest' := by
  induction h generalizing k' with
  | bottom _ hbottom => cases h' <;> grind
  | push hbottom _ ih =>
    cases h' with
    | bottom => grind
    | push _ h' =>
      obtain ⟨rfl, rfl⟩ := ih h'
      exact ⟨rfl, rfl⟩

variable {n : Nat}

theorem length_of_labelsFromBin {labels : List Nat} (h : labelsFromBin n bin = .ok (labels, rest)) :
    bin.length = rest.length + 3 * labels.length := by
  fun_induction labelsFromBin n bin generalizing labels rest <;> grind

theorem labelsFromBin_iff (hn : bin.length ≤ n) :
    (∃ labels, labelsFromBin n bin = .ok (labels, rest) ∧ labels.length = k) ∧ rest ≠ [] ↔
      Labelled k bin rest := by
  induction n generalizing k bin with
  | zero =>
    refine iff_of_false (by simp [labelsFromBin]) fun h => ?_
    have := h.length_lt
    omega
  | succ n ih =>
    unfold labelsFromBin
    split
    · refine iff_of_false (by simp) fun h => ?_
      have := h.length_lt
      omega
    · split
      · rename_i hbottom
        constructor
        · rintro ⟨⟨labels, h, rfl⟩, hrest⟩
          cases h
          exact .bottom (by simpa using hrest) hbottom
        · intro h
          cases h with
          | bottom hlt _ => exact ⟨⟨_, rfl, rfl⟩, by simpa using hlt⟩
          | push hpush _ => exact absurd hbottom hpush
      · rename_i hbottom
        have hdrop : (bin.drop 3).length ≤ n := by
          rw [length_drop]
          omega
        constructor
        · rintro ⟨⟨labels, h, rfl⟩, hrest⟩
          cases hrec : labelsFromBin n (bin.drop 3) with
          | error e => simp [hrec] at h
          | ok r =>
            simp only [hrec] at h
            cases h
            exact .push hbottom ((ih hdrop).1 ⟨⟨_, hrec, rfl⟩, hrest⟩)
        · intro h
          cases h with
          | bottom _ hb => exact absurd hb hbottom
          | push _ htail =>
            obtain ⟨⟨labels, hrec, rfl⟩, hrest⟩ := (ih hdrop).2 htail
            exact ⟨⟨_, by rw [hrec], rfl⟩, hrest⟩

theorem fromBin_of_labelled (h : Labelled k bin rest) :
    ∃ labels, fromBin bin = .ok (labels, rest) ∧ labels.length = k := by
  obtain ⟨⟨labels, hlabels, rfl⟩, _⟩ := (labelsFromBin_iff (Nat.le_refl _)).2 h
  have hlen := h.length_lt
  have hno : hasNoLabel bin = false := by
    simp only [hasNoLabel, hlabels, Bool.not_eq_false', decide_eq_true_eq]
    omega
  exact ⟨labels.map (· >>> 4), by simp [fromBin, hno, hlabels], by simp⟩

theorem fromBin_of_not_labelled (h : ∀ k rest, ¬Labelled k bin rest) :
    fromBin bin = .ok ([], bin) := by
  have hno : hasNoLabel bin = true := by
    unfold hasNoLabel
    split
    · rfl
    · rename_i labels rest hlabels
      have hlen := length_of_labelsFromBin hlabels
      have hrest : rest = [] := by
        by_contra hrest
        exact h _ _ ((labelsFromBin_iff (Nat.le_refl _)).1 ⟨⟨labels, hlabels, rfl⟩, hrest⟩)
      simp [hlen, hrest]
  rw [fromBin, if_pos hno]

theorem fromBin_bind_iff {β : Type} {f : List Nat × Bytes → PyResult β} {AddrOk : Bytes → Prop}
    {bits : Nat} (hf : ∀ labels rest, (∃ b, f (labels, rest) = .ok b) ↔
      24 * labels.length < bits ∧ AddrOk rest) (bin : Bytes) :
    (∃ b, (fromBin bin >>= f) = .ok b) ↔ LabelledOk AddrOk bits bin := by
  by_cases h : ∃ k rest, Labelled k bin rest
  · obtain ⟨k, rest, hlabelled⟩ := h
    obtain ⟨labels, hbin, rfl⟩ := fromBin_of_labelled hlabelled
    rw [hbin]
    refine (hf labels rest).trans ⟨fun hok => .inl ⟨_, _, hlabelled, hok⟩, ?_⟩
    rintro (⟨k, rest', hlabelled', hok⟩ | ⟨hnot, _⟩)
    · obtain ⟨rfl, rfl⟩ := hlabelled.unique hlabelled'
      exact hok
    · exact absurd hlabelled (hnot _ _)
  · replace h : ∀ k rest, ¬Labelled k bin rest := by simpa using h
    rw [fromBin_of_not_labelled h]
    refine (hf [] bin).trans ⟨fun hok => .inr ⟨h, hok⟩, ?_⟩
    rintro (⟨k, rest, hlabelled, _⟩ | ⟨_, hok⟩)
    · exact absurd hlabelled (h _ _)
    · exact hok

variable {size : Nat}

theorem pad_iff : (∃ addr, pad bin size = .ok addr) ↔ bin.length ≤ size :=
  exists_bind_pure.trans exists_pyAssert

theorem parseRouteDist_iff {buf : Bytes} :
    (∃ rd, parseRouteDist buf = .ok rd) ↔ buf.length = 8 ∧ uint buf 0 2 ≤ 2 := by
  refine (exists_bind_eq_ok fun _ _ => ?_).trans (and_congr_left' exists_pyAssert)
  split <;> simp_all
  omega

theorem vpnPrefixFromBin_iff : (∃ r, vpnPrefixFromBin size bin = .ok r) ↔ VpnOk size bin := by
  have huint : uint (bin.take 8) 0 2 = uint bin 0 2 := by
    simp [uint, slice, take_take]
  refine (exists_bind_eq_ok fun rd _ => exists_bind_pure.trans pad_iff).trans ?_
  rw [parseRouteDist_iff, huint, length_take, length_drop, VpnOk]
  omega

variable {length : Nat}

theorem labelledFromBin_iff :
    (∃ r, labelledFromBin size length bin = .ok r) ↔
      LabelledOk (fun rest => rest.length ≤ size) length bin := by
  apply fromBin_bind_iff
  intro labels rest
  refine (exists_bind_eq_ok fun _ _ => exists_bind_pure.trans exists_pyAssert).trans ?_
  rw [pad_iff]
  exact and_comm

theorem vpnFromBin_iff :
    (∃ r, vpnFromBin size length bin = .ok r) ↔
      LabelledOk (fun rest => 64 < length ∧ VpnOk size rest) length bin := by
  apply fromBin_bind_iff
  intro labels rest
  refine (exists_bind_eq_ok fun _ _ => exists_bind_eq_ok fun _ _ =>
    exists_bind_pure.trans exists_pyAssert).trans ?_
  rw [vpnPrefixFromBin_iff, exists_pyAssert]
  exact ⟨fun h => ⟨h.2.1, h.2.2, h.1⟩, fun h => ⟨h.2.2, h.1, h.2.1⟩⟩

variable {cls : AddrClass}

theorem makeNlri_iff :
    (∃ nlri, makeNlri length bin cls = .ok nlri) ↔ PrefixOk length bin cls := by
  cases cls with
  | ip => exact exists_bind_pure.trans pad_iff
  | ip6 => exact exists_bind_pure.trans pad_iff
  | labelledIp => exact exists_bind_pure.trans labelledFromBin_iff
  | labelledIp6 => exact exists_bind_pure.trans labelledFromBin_iff
  | vpnIp => exact exists_bind_pure.trans vpnFromBin_iff
  | vpnIp6 => exact exists_bind_pure.trans vpnFromBin_iff
  | rtc => exact iff_of_false (by simp [makeNlri]) id
  | bin => exact iff_of_true ⟨_, rfl⟩ trivial

theorem parseNlri_eq_ok {buf : Bytes} :
    (∃ nlri, parseNlri cls buf = .ok (nlri, rest)) ↔
      ∃ h, prefixHead buf = some h ∧ PrefixOk h.kind (h.value buf) cls ∧ rest = h.rest buf := by
  unfold parseNlri
  split
  · rename_i hlen
    refine iff_of_false (by simp) ?_
    rintro ⟨h, hhead, hok, -⟩
    have hle := (prefixHead_eq_some.1 hhead).1
    cases cls with
    | rtc => exact hok
    | _ => exact absurd hlen (Nat.not_lt.2 hle)
  · rename_i hlen
    have hle : 1 ≤ buf.length := by
      cases cls <;> simp only [firstSize] at hlen <;> omega
    refine exists_bind_pure_prod.trans ?_
    rw [makeNlri_iff, prefixHead_eq_some.2 ⟨hle, rfl⟩]
    simp only [some.injEq, exists_eq_left']
    rfl

theorem reads_parseNlri (cls : AddrClass) :
    Reads prefixHead (parseNlri cls) fun bits value _ => PrefixOk bits value cls where
  size_pos := by
    intro buf h hhead
    obtain ⟨hle, rfl⟩ := prefixHead_eq_some.1 hhead
    exact ⟨Nat.one_pos, hle⟩
  item_iff := parseNlri_eq_ok

theorem parseNlris_iff {buf : Bytes} :
    (∃ nlri, parseAll (parseNlri cls) buf = .ok nlri) ∧ ¬PrefixesOverrun buf ↔
      PrefixesOk cls buf := by
  refine ((reads_parseNlri cls).parseAll_iff buf).trans (Sequence.congr (fun _ _ _ => ?_) buf)
  exact and_iff_left not_false

/-! ## Optional parameters -/

/-- A type and a length, as optional parameters and capabilities have. -/
def tlvHead (buf : Bytes) : Option (ItemHeader Nat) :=
  if buf.length < 2 then none else some ⟨uint buf 0 1, 2, uint buf 1 2⟩

/-- The value is looked at together with everything that follows in the parameter. -/
def CapOk (code : Nat) (buf : Bytes) : Prop :=
  match code with
  | 1 | 65 => 4 ≤ buf.length
  | 64 => 2 ≤ buf.length ∧ 4 ∣ buf.length - 2
  | _ => True

def CapabilitiesOk : Bytes → Prop :=
  Sequence tlvHead fun code value rest => CapOk code (value ++ rest)

def CapabilitiesOverrun : Bytes → Prop := Overruns tlvHead fun _ _ => False

def OptParamsOk : Bytes → Prop :=
  Sequence tlvHead fun type value _ => type = bgpOptCapability → CapabilitiesOk value

def OptParamsOverrun : Bytes → Prop :=
  Overruns tlvHead fun type value => type = bgpOptCapability ∧ CapabilitiesOverrun value

theorem tlvHead_eq_some {buf : Bytes} {h : ItemHeader Nat} :
    tlvHead buf = some h ↔ 2 ≤ buf.length ∧ h = ⟨uint buf 0 1, 2, uint buf 1 2⟩ := by
  unfold tlvHead
  grind

theorem tlvHead_size_pos {buf : Bytes} {h : ItemHeader Nat} (hhead : tlvHead buf = some h) :
    0 < h.size ∧ h.size ≤ buf.length := by
  obtain ⟨hle, rfl⟩ := tlvHead_eq_some.1 hhead
  exact ⟨Nat.two_pos, hle⟩

theorem parseCapValue_iff {code : Nat} {buf : Bytes} :
    (∃ value, parseCapValue code buf = .ok value) ↔ CapOk code buf := by
  unfold parseCapValue
  split
  · rw [exists_ite_error, Nat.not_lt]
    exact and_iff_left ⟨_, rfl⟩
  · rw [exists_ite_error, Nat.not_lt]
    refine and_congr_right fun _ => exists_bind_pure.trans ?_
    rw [← length_drop]
    exact parseAll_fixed_iff (by decide) (buf.drop 2)
  · rw [exists_ite_error, Nat.not_lt]
    exact and_iff_left ⟨_, rfl⟩
  all_goals refine iff_of_true ⟨_, rfl⟩ ?_
  all_goals simp_all [CapOk]

theorem reads_parseCapability :
    Reads tlvHead parseCapability fun code value rest => CapOk code (value ++ rest) where
  size_pos := tlvHead_size_pos
  item_iff := by
    intro buf rest
    unfold parseCapability
    split
    · rename_i hlen
      exact iff_of_false (by simp) (by simp [tlvHead, hlen])
    · refine exists_bind_pure_prod.trans ?_
      rw [parseCapValue_iff, tlvHead_eq_some.2 ⟨by omega, rfl⟩]
      simp only [some.injEq, exists_eq_left', ItemHeader.value, ItemHeader.rest, take_append_drop]
      rw [drop_drop, Nat.add_comm]

theorem parseCapabilities_iff {buf : Bytes} :
    (∃ caps, parseAll parseCapability buf = .ok caps) ∧ ¬CapabilitiesOverrun buf ↔
      CapabilitiesOk buf := by
  refine (reads_parseCapability.parseAll_iff buf).trans (Sequence.congr (fun _ _ _ => ?_) buf)
  exact and_iff_left not_false

variable {type : Nat}

theorem parseOptValue_iff {value : Bytes} :
    (∃ opts, parseOptValue type length value = .ok opts) ↔
      (type = bgpOptCapability → ∃ caps, parseAll parseCapability value = .ok caps) := by
  unfold parseOptValue
  split
  · rename_i htype
    exact exists_bind_pure.trans (by simp [htype])
  · rename_i htype
    exact iff_of_true ⟨_, rfl⟩ fun h => absurd h htype

theorem reads_parseOptParam : Reads tlvHead parseOptParam fun type value _ =>
    type = bgpOptCapability → ∃ caps, parseAll parseCapability value = .ok caps where
  size_pos := tlvHead_size_pos
  item_iff := by
    intro buf rest
    unfold parseOptParam
    split
    · rename_i hlen
      exact iff_of_false (by simp) (by simp [tlvHead, hlen])
    · refine exists_bind_pure_prod.trans ?_
      rw [parseOptValue_iff, tlvHead_eq_some.2 ⟨by omega, rfl⟩]
      simp only [some.injEq, exists_eq_left']
      rfl

theorem parseOptParams_iff {buf : Bytes} :
    (∃ opts, parseAll parseOptParam buf = .ok opts) ∧ ¬OptParamsOverrun buf ↔
      OptParamsOk buf := by
  refine (reads_parseOptParam.parseAll_iff buf).trans (Sequence.congr (fun type value _ => ?_) buf)
  rw [← parseCapabilities_iff]
  tauto

/-! ## AS paths -/

/-- A type and a count; the value are the numbers. -/
def segmentHead (size : Nat) (buf : Bytes) : Option (ItemHeader (Nat × Nat)) :=
  if buf.length < 2 then none
  else some ⟨(uint buf 0 1, uint buf 1 2), 2, uint buf 1 2 * size⟩

/-- A set or a sequence with all of its numbers. -/
def SegmentOk (size : Nat) (kind : Nat × Nat) (value : Bytes) : Prop :=
  (kind.1 = 1 ∨ kind.1 = 2) ∧ value.length = kind.2 * size

instance (size : Nat) (kind : Nat × Nat) (value : Bytes) : Decidable (SegmentOk size kind value) :=
  inferInstanceAs (Decidable (_ ∧ _))

def SegmentsOk (size : Nat) : Bytes → Prop :=
  Sequence (segmentHead size) fun kind value _ => SegmentOk size kind value

/-- After segments with numbers of two bytes there is a single byte. -/
inductive CutSegment : Bytes → Prop where
  | here {b} : CutSegment [b]
  | later {buf h} : segmentHead 2 buf = some h → SegmentOk 2 h.kind (h.value buf) →
      CutSegment (h.rest buf) → CutSegment buf

/-- Numbers of two bytes come first, and then it must be possible to look for them. -/
def AsPathOk (buf : Bytes) : Prop := SegmentsOk 2 buf ∨ SegmentsOk 4 buf ∧ ¬CutSegment buf

theorem segmentHead_eq_some {buf : Bytes} {h : ItemHeader (Nat × Nat)} :
    segmentHead size buf = some h ↔
      2 ≤ buf.length ∧ h = ⟨(uint buf 0 1, uint buf 1 2), 2, uint buf 1 2 * size⟩ := by
  unfold segmentHead
  grind

variable {buf : Bytes}

theorem fits_of_segmentOk {h : ItemHeader (Nat × Nat)} (hhead : segmentHead size buf = some h) :
    h.Fits buf ↔ (h.value buf).length = h.kind.2 * size := by
  obtain ⟨hle, rfl⟩ := segmentHead_eq_some.1 hhead
  simp only [ItemHeader.Fits, ItemHeader.value, length_take, length_drop]
  omega

theorem parseAsNumbers_of_le (h : n * size ≤ buf.length) :
    ∃ l, parseAsNumbers size n buf = .ok (l, buf.drop (n * size)) := by
  induction n generalizing buf with
  | zero => exact ⟨[], by simp [parseAsNumbers]⟩
  | succ n ih =>
    rw [Nat.succ_mul] at h ⊢
    obtain ⟨l, hl⟩ := @ih (buf.drop size) (by rw [length_drop]; omega)
    refine ⟨uint buf 0 size :: l, ?_⟩
    rw [parseAsNumbers, if_neg (by omega), hl, drop_drop, Nat.add_comm]

theorem parseAsNumbers_of_lt (h : buf.length < n * size) :
    parseAsNumbers size n buf = .error .structError := by
  induction n generalizing buf with
  | zero => omega
  | succ n ih =>
    rw [Nat.succ_mul] at h
    unfold parseAsNumbers
    split
    · rfl
    · rw [ih (by rw [length_drop]; omega)]

theorem parseAsSegment_iff {buf : Bytes} :
    (∃ seg, parseAsSegment size buf = .ok (seg, rest)) ↔ ∃ h, segmentHead size buf = some h ∧
      SegmentOk size h.kind (h.value buf) ∧ rest = h.rest buf := by
  unfold parseAsSegment
  split
  · rename_i hlen
    exact iff_of_false (by simp) (by simp [segmentHead, hlen])
  rename_i hlen
  have hhead := (@segmentHead_eq_some size buf _).2 ⟨Nat.not_lt.1 hlen, rfl⟩
  simp only [hhead, some.injEq, exists_eq_left', SegmentOk, ← fits_of_segmentOk hhead]
  rcases Nat.lt_or_ge (buf.drop 2).length (uint buf 1 2 * size) with hlt | hge
  · rw [parseAsNumbers_of_lt hlt]
    refine iff_of_false (by simp) ?_
    rw [length_drop] at hlt
    rintro ⟨⟨-, hfits⟩, -⟩
    simp only [ItemHeader.Fits] at hfits
    omega
  · obtain ⟨l, hl⟩ := parseAsNumbers_of_le hge
    rw [length_drop] at hge
    have hfits : ItemHeader.Fits ⟨(uint buf 0 1, uint buf 1 2), 2, uint buf 1 2 * size⟩ buf := by
      simp only [ItemHeader.Fits]
      omega
    simp only [hl, hfits, and_true, ItemHeader.rest]
    split
    · rename_i htype
      simp [htype, eq_comm]
    · rename_i htype
      simp [htype, eq_comm]
    · rename_i hset hsequence
      exact iff_of_false (by simp) fun h => h.1.elim hset hsequence

theorem reads_parseAsSegment (size : Nat) :
    Reads (segmentHead size) (parseAsSegment size) fun kind value _ =>
      SegmentOk size kind value where
  size_pos := by
    intro buf h hhead
    obtain ⟨hle, rfl⟩ := segmentHead_eq_some.1 hhead
    exact ⟨Nat.two_pos, hle⟩
  item_iff := parseAsSegment_iff

theorem parseAsSegments_iff :
    (∃ value, parseAll (parseAsSegment size) buf = .ok value) ↔ SegmentsOk size buf :=
  (reads_parseAsSegment size).parseAll_iff_of_fits
    (fun hhead hgood => (fits_of_segmentOk hhead).2 hgood.2) buf

theorem isValid16bitAsPath_succ (hbuf : buf ≠ []) :
    isValid16bitAsPath (n + 1) buf =
      match segmentHead 2 buf with
      | none => .error .structError
      | some h => if SegmentOk 2 h.kind (h.value buf) then isValid16bitAsPath n (h.rest buf)
        else .ok false := by
  cases buf with
  | nil => contradiction
  | cons b buf =>
    rw [isValid16bitAsPath]
    split
    · rename_i hlen
      simp only [segmentHead, hlen, if_true]
    · rename_i hlen
      have hhead := (@segmentHead_eq_some 2 (b :: buf) _).2 ⟨Nat.not_lt.1 hlen, rfl⟩
      simp only [hhead, SegmentOk, ← fits_of_segmentOk hhead, ItemHeader.Fits, ItemHeader.rest,
        length_drop]
      grind

/-- The segment that is read next, if the walk goes on. -/
theorem isValid16bitAsPath_cases (hbuf : buf ≠ []) :
    (∃ b, buf = [b]) ∧ isValid16bitAsPath (n + 1) buf = .error .structError ∨
      ∃ h, segmentHead 2 buf = some h ∧
        (SegmentOk 2 h.kind (h.value buf) ∧
            isValid16bitAsPath (n + 1) buf = isValid16bitAsPath n (h.rest buf) ∨
          ¬SegmentOk 2 h.kind (h.value buf) ∧ isValid16bitAsPath (n + 1) buf = .ok false) := by
  rw [isValid16bitAsPath_succ hbuf]
  cases hhead : segmentHead 2 buf with
  | none =>
    refine .inl ⟨?_, rfl⟩
    have hlen : buf.length < 2 := by
      unfold segmentHead at hhead
      grind
    have hpos := length_pos_iff.2 hbuf
    exact length_eq_one_iff.1 (by omega)
  | some h =>
    refine .inr ⟨h, rfl, ?_⟩
    by_cases hok : SegmentOk 2 h.kind (h.value buf)
    · exact .inl ⟨hok, if_pos hok⟩
    · exact .inr ⟨hok, if_neg hok⟩

theorem isValid16bitAsPath_eq_true (hn : buf.length ≤ n) :
    isValid16bitAsPath n buf = .ok true ↔ SegmentsOk 2 buf := by
  induction n generalizing buf with
  | zero =>
    obtain rfl : buf = [] := eq_nil_of_length_eq_zero (by omega)
    exact iff_of_true rfl .nil
  | succ n ih =>
    rcases eq_or_ne buf [] with rfl | hbuf
    · exact iff_of_true rfl .nil
    obtain ⟨⟨b, rfl⟩, hwalk⟩ | ⟨h, hhead, ⟨hok, hwalk⟩ | ⟨hok, hwalk⟩⟩ :=
      isValid16bitAsPath_cases (n := n) hbuf
    · rw [hwalk]
      refine iff_of_false (by simp) fun hseq => ?_
      obtain ⟨h, hhead, -⟩ := hseq.inv hbuf
      simp [segmentHead] at hhead
    · have hlt := (reads_parseAsSegment 2).length_rest_lt hhead
      rw [hwalk, ih (by omega)]
      exact ⟨.cons hhead ((fits_of_segmentOk hhead).2 hok.2) hok,
        fun hseq => (hseq.of_head hbuf hhead).2⟩
    · rw [hwalk]
      exact iff_of_false (by simp) fun hseq => hok (hseq.of_head hbuf hhead).1

theorem CutSegment.of_head {h : ItemHeader (Nat × Nat)} (hcut : CutSegment buf)
    (hhead : segmentHead 2 buf = some h) :
    SegmentOk 2 h.kind (h.value buf) ∧ CutSegment (h.rest buf) := by
  cases hcut with
  | here => simp [segmentHead] at hhead
  | later hhead' hok hcut =>
    rw [hhead] at hhead'
    cases hhead'
    exact ⟨hok, hcut⟩

theorem isValid16bitAsPath_eq_error (hn : buf.length ≤ n) :
    (∃ e, isValid16bitAsPath n buf = .error e) ↔ CutSegment buf := by
  have hnil : ¬CutSegment [] := by
    intro hcut
    cases hcut with
    | later hhead _ _ => simp [segmentHead] at hhead
  induction n generalizing buf with
  | zero =>
    obtain rfl : buf = [] := eq_nil_of_length_eq_zero (by omega)
    exact iff_of_false (by simp [isValid16bitAsPath]) hnil
  | succ n ih =>
    rcases eq_or_ne buf [] with rfl | hbuf
    · exact iff_of_false (by simp [isValid16bitAsPath]) hnil
    obtain ⟨⟨b, rfl⟩, hwalk⟩ | ⟨h, hhead, ⟨hok, hwalk⟩ | ⟨hok, hwalk⟩⟩ :=
      isValid16bitAsPath_cases (n := n) hbuf
    · exact iff_of_true ⟨_, hwalk⟩ .here
    · have hlt := (reads_parseAsSegment 2).length_rest_lt hhead
      have htail := ih (show (h.rest buf).length ≤ n by omega)
      simp only [hwalk, htail]
      exact ⟨.later hhead hok, fun hcut => (hcut.of_head hhead).2⟩
    · rw [hwalk]
      exact iff_of_false (by simp) fun hcut => hok (hcut.of_head hhead).1

theorem parseAsPath_iff : (∃ value, parseAsPath buf = .ok value) ↔ AsPathOk buf := by
  have htrue := isValid16bitAsPath_eq_true (Nat.le_refl buf.length)
  have herror := isValid16bitAsPath_eq_error (Nat.le_refl buf.length)
  unfold parseAsPath AsPathOk
  rw [← htrue, ← herror]
  cases hvalid : isValid16bitAsPath buf.length buf with
  | error e => simp
  | ok valid =>
    rw [hvalid] at htrue
    cases valid with
    | true => simpa [parseAsSegments_iff] using htrue
    | false => simp [parseAsSegments_iff]

/-! ## Path attributes -/

def attrHead (buf : Bytes) : Option (ItemHeader Nat) :=
  let size := 2 + lenSize (uint buf 0 1)
  if buf.length < size then none else some ⟨uint buf 1 2, size, uint buf 2 size⟩

/-- The next hop of a VPN has a route distinguisher, and that of IPv6 may have two addresses. -/
def NextHopOk (afi safi nextHopLen : Nat) : Prop :=
  if safi = 128 then afi = 1 ∧ nextHopLen = 12 ∨ afi = 2 ∧ nextHopLen = 24
  else afi = 1 ∧ nextHopLen = 4 ∨ afi = 2 ∧ (nextHopLen = 16 ∨ nextHopLen = 32)

/-- The routes after the next hop and the reserved byte. -/
def mpReachRoutes (value : Bytes) : Bytes := value.drop (5 + uint value 3 4)

def MpReachOk (value : Bytes) : Prop :=
  4 ≤ value.length ∧ slice value (4 + uint value 3 4) (5 + uint value 3 4) = [0] ∧
    NextHopOk (uint value 0 2) (uint value 2 3) (uint value 3 4) ∧
    PrefixesOk (getAddrClass (uint value 0 2) (uint value 2 3)) (mpReachRoutes value)

def MpUnreachOk (value : Bytes) : Prop :=
  3 ≤ value.length ∧ PrefixesOk (getAddrClass (uint value 0 2) (uint value 2 3)) (value.drop 3)

def AttrOk (type : Nat) (value : Bytes) : Prop :=
  match type with
  | 1 => 1 ≤ value.length
  | 2 => AsPathOk value
  | 3 | 4 | 5 | 9 => 4 ≤ value.length
  | 7 => 6 ≤ value.length
  | 14 => MpReachOk value
  | 15 => MpUnreachOk value
  | 16 => 8 ∣ value.length
  | 17 => SegmentsOk 4 value
  | 18 => 8 ≤ value.length
  | _ => True

def AttrOverruns (type : Nat) (value : Bytes) : Prop :=
  match type with
  | 14 => PrefixesOverrun (mpReachRoutes value)
  | 15 => PrefixesOverrun (value.drop 3)
  | _ => False

def AttributesOk : Bytes → Prop := Sequence attrHead fun type value _ => AttrOk type value

def AttributesOverrun : Bytes → Prop := Overruns attrHead AttrOverruns

theorem addrOfBin_iff : (∃ addr, addrOfBin size bin = .ok addr) ↔ bin.length = size := by
  unfold addrOfBin
  split <;> simp_all

theorem nextHopOfBin_iff {afi safi : Nat} (hn : bin.length = n) :
    (∃ addr, nextHopOfBin afi safi n bin = .ok addr) ↔ NextHopOk afi safi n := by
  unfold nextHopOfBin NextHopOk
  split
  · simp only [addrOfBin_iff, length_drop]
    grind
  split
  · simp only [addrOfBin_iff, length_drop]
    grind
  split
  · rw [addrOfBin_iff]
    grind
  split
  · simp only [addrOfBin_iff]
    grind
  · grind

theorem parseMpReach_iff :
    (∃ value, parseMpReach buf = .ok value) ∧ ¬PrefixesOverrun (mpReachRoutes buf) ↔
      MpReachOk buf := by
  unfold parseMpReach MpReachOk
  rw [exists_ite_error, Nat.not_lt, and_assoc]
  refine and_congr_right fun hlen => ?_
  generalize hnh : uint buf 3 4 = n
  have hreserved : ((buf.drop 4).drop n).take 1 = slice buf (4 + n) (5 + n) := by
    rw [slice, drop_drop, show 5 + n - (4 + n) = 1 by omega]
  have hroutes : ((buf.drop 4).drop n).drop 1 = mpReachRoutes buf := by
    rw [mpReachRoutes, hnh, drop_drop, drop_drop]
    congr 1
    omega
  simp only [hreserved, hroutes]
  refine (and_congr_left' (exists_bind_eq_ok fun _ _ =>
    exists_bind_eq_ok fun _ _ => exists_bind_pure)).trans ?_
  rw [exists_pyAssert, and_assoc]
  refine and_congr_right fun hzero => ?_
  have hbin : ((buf.drop 4).take n).length = n := by
    have := congrArg List.length hzero
    simp only [slice, length_take, length_drop, length_singleton] at this ⊢
    omega
  rw [nextHopOfBin_iff hbin, ← parseNlris_iff]
  tauto

theorem parseMpUnreach_iff :
    (∃ value, parseMpUnreach buf = .ok value) ∧ ¬PrefixesOverrun (buf.drop 3) ↔
      MpUnreachOk buf := by
  unfold parseMpUnreach MpUnreachOk
  rw [exists_ite_error, Nat.not_lt, and_assoc, ← parseNlris_iff]
  exact and_congr_right fun _ => and_congr_left' exists_bind_pure

theorem parseFormat_iff {value : Bytes → AttrValue} :
    (∃ v, parseFormat size value buf = .ok v) ↔ size ≤ buf.length := by
  rw [parseFormat, exists_ite_error, Nat.not_lt]
  exact and_iff_left ⟨_, rfl⟩

theorem parseAttrValue_iff :
    (∃ value, parseAttrValue type buf = .ok value) ∧ ¬AttrOverruns type buf ↔ AttrOk type buf := by
  unfold parseAttrValue
  split
  case h_2 => exact (and_iff_left not_false).trans (exists_bind_pure.trans parseAsPath_iff)
  case h_11 => exact parseMpReach_iff
  case h_12 => exact parseMpUnreach_iff
  case h_13 =>
    refine (and_iff_left not_false).trans (exists_bind_pure.trans ?_)
    exact parseAll_fixed_iff (by decide) buf
  case h_14 => exact (and_iff_left not_false).trans (exists_bind_pure.trans parseAsSegments_iff)
  case h_6 | h_8 | h_10 => exact iff_of_true ⟨⟨_, rfl⟩, not_false⟩ trivial
  case h_16 =>
    refine iff_of_true ⟨⟨_, rfl⟩, ?_⟩ ?_
    · unfold AttrOverruns
      split <;> simp_all
    · unfold AttrOk
      split <;> simp_all
  all_goals exact (and_iff_left not_false).trans parseFormat_iff

theorem attrHead_eq_some {h : ItemHeader Nat} :
    attrHead buf = some h ↔ 2 + lenSize (uint buf 0 1) ≤ buf.length ∧
      h = ⟨uint buf 1 2, 2 + lenSize (uint buf 0 1), uint buf 2 (2 + lenSize (uint buf 0 1))⟩ := by
  unfold attrHead
  grind

theorem reads_parsePathAttribute : Reads attrHead parsePathAttribute fun type value _ =>
    ∃ v, parseAttrValue type value = .ok v where
  size_pos := by
    intro buf h hhead
    obtain ⟨hle, rfl⟩ := attrHead_eq_some.1 hhead
    exact ⟨Nat.add_pos_left Nat.two_pos _, hle⟩
  item_iff := by
    intro buf rest
    unfold parsePathAttribute
    split
    · refine iff_of_false (by simp) ?_
      rintro ⟨h, hhead, -⟩
      have := (attrHead_eq_some.1 hhead).1
      omega
    dsimp only
    split
    · rename_i hlen
      exact iff_of_false (by simp) (by simp [attrHead, hlen])
    · rename_i hlen
      refine exists_bind_pure_prod.trans ?_
      rw [attrHead_eq_some.2 ⟨Nat.not_lt.1 hlen, rfl⟩]
      simp only [some.injEq, exists_eq_left']
      rfl

theorem parsePathAttributes_iff :
    (∃ attrs, parseAll parsePathAttribute buf = .ok attrs) ∧ ¬AttributesOverrun buf ↔
      AttributesOk buf := by
  refine (reads_parsePathAttribute.parseAll_iff buf).trans (Sequence.congr (fun _ _ _ => ?_) buf)
  exact parseAttrValue_iff

/-! ## Messages -/

def OpenOk (body : Bytes) : Prop :=
  10 ≤ body.length ∧ 10 + uint body 9 10 ≤ body.length ∧
    OptParamsOk ((body.drop 10).take (uint body 9 10))

def OpenOverruns (body : Bytes) : Prop :=
  body.length < 10 + uint body 9 10 ∨ OptParamsOverrun ((body.drop 10).take (uint body 9 10))

/-- Where the path attributes begin, and how long they are. -/
def attributesAt (body : Bytes) : Nat := 2 + uint body 0 2 + 2
def attributesLen (body : Bytes) : Nat := uint body (2 + uint body 0 2) (2 + uint body 0 2 + 2)

def withdrawnOf (body : Bytes) : Bytes := (body.drop 2).take (uint body 0 2)

def attributesOf (body : Bytes) : Bytes :=
  (body.drop (attributesAt body)).take (attributesLen body)

def nlriOf (body : Bytes) : Bytes := body.drop (attributesAt body + attributesLen body)

def UpdateOk (body : Bytes) : Prop :=
  4 ≤ body.length ∧ attributesAt body ≤ body.length ∧
    attributesAt body + attributesLen body ≤ body.length ∧ PrefixesOk .ip (withdrawnOf body) ∧
    AttributesOk (attributesOf body) ∧ PrefixesOk .ip (nlriOf body)

def UpdateOverruns (body : Bytes) : Prop :=
  body.length < 2 + uint body 0 2 ∨ body.length < attributesAt body + attributesLen body ∨
    PrefixesOverrun (withdrawnOf body) ∨ AttributesOverrun (attributesOf body) ∨
    PrefixesOverrun (nlriOf body)

/-- The grammar of the bodies of messages. -/
def WellFormed (type : Nat) (body : Bytes) : Prop :=
  match type with
  | 1 => OpenOk body
  | 2 => UpdateOk body
  | 3 => 2 ≤ body.length
  | 4 => True
  | 5 => 4 ≤ body.length
  | _ => False

/-- A path attribute, a prefix, a capability, or what holds them is longer than its container. -/
def BodyOverruns (type : Nat) (body : Bytes) : Prop :=
  match type with
  | 1 => OpenOverruns body
  | 2 => UpdateOverruns body
  | _ => False

variable {body : Bytes}

theorem parseOpen_iff : (∃ msg, parseOpen body = .ok msg) ∧ ¬OpenOverruns body ↔ OpenOk body := by
  unfold parseOpen OpenOverruns OpenOk
  rw [exists_ite_error, exists_bind_pure, ← parseOptParams_iff]
  grind

theorem parseUpdate_iff :
    (∃ msg, parseUpdate body = .ok msg) ∧ ¬UpdateOverruns body ↔ UpdateOk body := by
  have hok : (∃ msg, parseUpdate body = .ok msg) ↔ ¬body.length < 2 ∧
      ¬body.length < attributesAt body ∧
      (∃ routes, parseAll (parseNlri .ip) (withdrawnOf body) = .ok routes) ∧
      (∃ attrs, parseAll parsePathAttribute (attributesOf body) = .ok attrs) ∧
      ∃ nlri, parseAll (parseNlri .ip) (nlriOf body) = .ok nlri := by
    refine exists_ite_error.trans (and_congr_right fun _ => exists_ite_error.trans ?_)
    exact and_congr_right fun _ => exists_bind_eq_ok fun _ _ =>
      exists_bind_eq_ok fun _ _ => exists_bind_pure
  rw [hok, UpdateOk, UpdateOverruns, ← parseNlris_iff, ← parseNlris_iff, ← parsePathAttributes_iff]
  have hat : attributesAt body = 2 + uint body 0 2 + 2 := rfl
  grind

theorem parseBody_iff :
    (∃ msg, parseBody type body = .ok msg) ∧ ¬BodyOverruns type body ↔ WellFormed type body := by
  unfold parseBody
  split
  case h_1 => exact (and_congr_left' exists_bind_pure).trans parseOpen_iff
  case h_2 => exact (and_congr_left' exists_bind_pure).trans parseUpdate_iff
  case h_3 | h_5 =>
    rw [exists_ite_error, Nat.not_lt]
    exact (and_iff_left not_false).trans (and_iff_left ⟨_, rfl⟩)
  case h_4 => exact iff_of_true ⟨⟨_, rfl⟩, not_false⟩ trivial
  case h_6 =>
    unfold WellFormed
    split <;> simp_all

end BebaCtrl.Bgp.Wire
