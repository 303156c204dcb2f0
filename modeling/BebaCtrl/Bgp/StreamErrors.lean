import BebaCtrl.Bgp.WireFormat

/-!
# Errors in a byte stream

What becomes of a malformed message when a stream is received. The header checks raise a `BgpExc`,
and the parsers raise everything else. A value that overruns its container is cut and handed on.

The handler of the messages is one that does not raise, so that every message of the stream is
reached.
-/

namespace BebaCtrl.Bgp.Speaker

open Wire List

/-- The type and the body of a complete message. -/
def frameType (frame : Bytes) : Nat := (parseMsgHeader (frame.take 19)).type
def frameBody (frame : Bytes) : Bytes := frame.drop 19

/-- A message that has to be answered by a NOTIFICATION. -/
def Malformed (frame : Bytes) : Prop :=
  frameType frame = bgpMsgUpdate ∧ frame.length < 23 ∨
    frameType frame ∉ [bgpMsgOpen, bgpMsgUpdate, bgpMsgNotification, bgpMsgKeepAlive,
      bgpMsgRouteRefresh] ∨
    BodyOverruns (frameType frame) (frameBody frame)

variable {σ : Type}

def receiver (handle : BgpMessage Body → σ → σ) : App Body σ where
  parseBody := parseBody
  handleMsg msg s := (.ok (), handle msg s)

/-- An exception is a `BgpExc`, and none of the messages that went through to the handler should
have been reported. -/
def Reported (handle : BgpMessage Body → σ → σ) (s : σ) (chunks : List Bytes) : Prop :=
  let fed := feed (receiver handle) chunks { app := s }
  (∀ e, raised fed.1 = some e → ∃ exc, e = .bgpExc exc) ∧
    ∀ frame ∈ (framer.frames chunks.flatten).take fed.2.1.calls.length, ¬Malformed frame

theorem nextFrame_eq_bad {buf : Bytes} {e : Raised} (h : nextFrame buf = .bad e) :
    ∃ exc, e = .bgpExc exc := by
  unfold nextFrame at h
  grind

/-- The parser of a complete message is the parser of its body. -/
theorem parser_frame {buf : Bytes} {n : Nat} (h : nextFrame buf = .message n) :
    BgpMessage.parser parseBody (buf.take n) =
      match parseBody (frameType (buf.take n)) (frameBody (buf.take n)) with
      | .error e => .error (.pyErr e)
      | .ok body => .ok (⟨n, frameType (buf.take n), body⟩, []) := by
  obtain ⟨h19, hn, hlength⟩ := nextFrame_eq_message h
  have hlen : (buf.take n).length = n := length_take_of_le hn
  have hheader : (parseMsgHeader ((buf.take n).take 19)).length = n := by
    rw [take_take, Nat.min_eq_left h19, hlength]
  have hbody : slice (buf.take n) 19 n = frameBody (buf.take n) := by
    rw [slice, frameBody, take_of_length_le (by rw [length_drop, hlen])]
  have hrest : (buf.take n).drop n = [] := drop_of_length_le (Nat.le_of_eq hlen)
  unfold BgpMessage.parser
  simp only [hheader, hlen, hbody, hrest, frameType]
  rw [if_neg (by omega)]
  cases parseBody (parseMsgHeader ((buf.take n).take 19)).type (frameBody (buf.take n)) <;> rfl

theorem frameType_of_wellFormed {frame : Bytes}
    (h : WellFormed (frameType frame) (frameBody frame)) :
    frameType frame ∈ [bgpMsgOpen, bgpMsgUpdate, bgpMsgNotification, bgpMsgKeepAlive,
      bgpMsgRouteRefresh] := by
  unfold WellFormed at h
  split at h
  case h_6 => exact h.elim
  all_goals simp_all [bgpMsgOpen, bgpMsgUpdate, bgpMsgNotification, bgpMsgKeepAlive,
    bgpMsgRouteRefresh]

/-- What the parsers let through and is not malformed is well-formed, and the other way round. -/
theorem parseBody_frame_iff {frame : Bytes} (hlen : 19 ≤ frame.length) :
    (∃ body, parseBody (frameType frame) (frameBody frame) = .ok body) ∧ ¬Malformed frame ↔
      WellFormed (frameType frame) (frameBody frame) := by
  constructor
  · rintro ⟨hok, hmalformed⟩
    exact parseBody_iff.1 ⟨hok, fun hover => hmalformed (.inr (.inr hover))⟩
  · intro h
    obtain ⟨hok, hover⟩ := parseBody_iff.2 h
    refine ⟨hok, ?_⟩
    rintro (⟨htype, hshort⟩ | hunknown | hover')
    · rw [htype] at h
      have hbody : 4 ≤ (frameBody frame).length := h.1
      rw [frameBody, length_drop] at hbody
      omega
    · exact hunknown (frameType_of_wellFormed h)
    · exact hover hover'

theorem consume_receiver (handle : BgpMessage Body → σ → σ) (s : σ × List (BgpMessage Body))
    {buf : Bytes} {n : Nat} (h : nextFrame buf = .message n) :
    (∃ e, consume (receiver handle) (buf.take n) s = .rejected (.pyErr e) ∧
        ¬WellFormed (frameType (buf.take n)) (frameBody (buf.take n))) ∨
      ∃ msg, consume (receiver handle) (buf.take n) s = .done (handle msg s.1, s.2 ++ [msg]) ∧
        (¬Malformed (buf.take n) ↔
          WellFormed (frameType (buf.take n)) (frameBody (buf.take n))) := by
  have hn := nextFrame_eq_message h
  have hlen : 19 ≤ (buf.take n).length := by
    rw [length_take_of_le hn.2.1]
    exact hn.1
  have hiff := parseBody_frame_iff hlen
  have hparser := parser_frame h
  unfold consume
  simp only [receiver, hparser]
  cases hbody : parseBody (frameType (buf.take n)) (frameBody (buf.take n)) with
  | error e =>
    rw [← hiff, hbody]
    simp
  | ok body =>
    rw [← hiff, hbody]
    simp

/-- Along the stream. -/
theorem reported_of_drains {handle : BgpMessage Body → σ → σ} {buf rest : Bytes}
    {s s' : σ × List (BgpMessage Body)} {r : Option Raised}
    (h : Drains framer (consume (receiver handle)) buf s rest s' r) :
    ∃ msgs, s'.2 = s.2 ++ msgs ∧
      ((∀ e, r = some e → ∃ exc, e = .bgpExc exc) ∧
          (∀ frame ∈ (framer.frames buf).take msgs.length, ¬Malformed frame) ↔
        ∀ frame ∈ framer.frames buf, WellFormed (frameType frame) (frameBody frame)) := by
  induction h with
  | wait hnext =>
    simp [Framer.frames_of_wait hnext]
  | bad hnext =>
    simpa [Framer.frames_of_bad hnext] using nextFrame_eq_bad hnext
  | @rejected buf s n e hnext hc =>
    refine ⟨[], by simp, ?_⟩
    rw [Framer.frames_of_message hnext]
    obtain ⟨e', hrejected, hwf⟩ | ⟨msg, hdone, -⟩ := consume_receiver handle s hnext
    · obtain rfl : e = .pyErr e' := by
        rw [hc] at hrejected
        exact Consumed.rejected.inj hrejected
      exact iff_of_false (by simp) fun hall => hwf (hall _ mem_cons_self)
    · rw [hc] at hdone
      cases hdone
  | @failed buf s n e s' hnext hc =>
    obtain ⟨e', hrejected, -⟩ | ⟨msg, hdone, -⟩ := consume_receiver handle s hnext
    · rw [hc] at hrejected
      cases hrejected
    · rw [hc] at hdone
      cases hdone
  | @done buf s n s' rest s'' r hnext hc _ ih =>
    obtain ⟨e', hrejected, -⟩ | ⟨msg, hdone, hmalformed⟩ := consume_receiver handle s hnext
    · rw [hc] at hrejected
      cases hrejected
    obtain ⟨msgs, hcalls, hiff⟩ := ih
    rw [hc] at hdone
    cases hdone
    refine ⟨msg :: msgs, by simpa using hcalls, ?_⟩
    rw [Framer.frames_of_message hnext]
    simp only [length_cons, take_succ_cons, forall_mem_cons, hmalformed, ← hiff]
    tauto

/-- Whatever the chunks, the errors of a stream are reported if and only if all of its messages are
well-formed. -/
theorem reported_iff_wellFormed (handle : BgpMessage Body → σ → σ) (s : σ) (chunks : List Bytes) :
    Reported handle s chunks ↔ ∀ frame ∈ framer.frames chunks.flatten,
      WellFormed (frameType frame) (frameBody frame) := by
  have hdrains := @drains_feed _ _ (receiver handle) chunks { app := s } rfl
  obtain ⟨msgs, hcalls, hiff⟩ := reported_of_drains hdrains
  subst hcalls
  exact hiff

/-- An UPDATE of 19 bytes ends in a `struct.error`, a message of type 7 in an `AttributeError`, and
an UPDATE that announces one byte of path attributes and has none goes to the handler. -/
theorem not_reported_shortUpdate_unknownType_cutAttributes :
    let received := fun stream => feed (receiver fun _ (s : Unit) => s) [stream] { app := () }
    let shortUpdate := messageMarker ++ [0, 19, 2]
    let unknownType := messageMarker ++ [0, 19, 7]
    let cutAttributes := messageMarker ++ [0, 23, 2, 0, 0, 0, 1]
    (raised (received shortUpdate).1 = some (.pyErr .structError) ∧
      raised (received unknownType).1 = some (.pyErr .attributeError) ∧
      raised (received cutAttributes).1 = none ∧
      (received cutAttributes).2.1.calls = [⟨23, 2, .update ⟨0, [], 1, [], []⟩⟩]) ∧
    ∀ stream ∈ [shortUpdate, unknownType, cutAttributes],
      ¬Reported (fun _ (s : Unit) => s) () [stream] := by
  intro received shortUpdate unknownType cutAttributes
  have hshort : raised (received shortUpdate).1 = some (.pyErr .structError) := by decide +kernel
  have hunknown : raised (received unknownType).1 = some (.pyErr .attributeError) := by
    decide +kernel
  have hcut : raised (received cutAttributes).1 = none ∧
      (received cutAttributes).2.1.calls = [⟨23, 2, .update ⟨0, [], 1, [], []⟩⟩] := by
    decide +kernel
  refine ⟨⟨hshort, hunknown, hcut⟩, ?_⟩
  simp only [mem_cons, not_mem_nil, or_false]
  rintro stream (rfl | rfl | rfl) ⟨hexc, hframes⟩
  · obtain ⟨exc, hexc⟩ := hexc _ hshort
    cases hexc
  · obtain ⟨exc, hexc⟩ := hexc _ hunknown
    cases hexc
  · refine hframes cutAttributes (by decide +kernel) (.inr (.inr (.inr (.inl ?_))))
    decide +kernel

end BebaCtrl.Bgp.Speaker
