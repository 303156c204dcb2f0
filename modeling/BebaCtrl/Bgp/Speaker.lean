import BebaCtrl.Bgp.Exceptions
import BebaCtrl.Lib.Bytes
import BebaCtrl.Lib.Drain

/-!
# Receiving a byte stream

`_data_received` appends what arrives to a buffer, checks the header at the front of the buffer, and
when the message is complete it parses it and calls the handler. The parsers of the message bodies
and the handler are parameters.
-/

namespace BebaCtrl.Bgp

open List

def bgpMsgOpen : Nat := 1
def bgpMsgUpdate : Nat := 2
def bgpMsgNotification : Nat := 3
def bgpMsgKeepAlive : Nat := 4
def bgpMsgRouteRefresh : Nat := 5

structure MsgHeader where
  marker : Bytes
  length : Nat
  type : Nat
  deriving DecidableEq, Repr

/-- `struct.unpack('!16sHB', buff)` of 19 bytes. -/
def parseMsgHeader (buff : Bytes) : MsgHeader where
  marker := buff.take 16
  length := beDecode (slice buff 16 18)
  type := beDecode (slice buff 18 19)

structure BgpMessage (β : Type) where
  len : Nat
  type : Nat
  body : β
  deriving DecidableEq, Repr

/-- `BGPMessage.parser`: a message and the rest of the buffer. -/
def BgpMessage.parser {β : Type} (parseBody : Nat → Bytes → PyResult β) (buf : Bytes) :
    Except Raised (BgpMessage β × Bytes) :=
  let header := parseMsgHeader (buf.take 19)
  if buf.length < 19 ∨ buf.length < header.length then
    .error (.pyErr (.other "TooSmallException"))
  else
    match parseBody header.type (slice buf 19 header.length) with
    | .error e => .error (.pyErr e)
    | .ok body => .ok (⟨header.length, header.type, body⟩, buf.drop header.length)

/-- What a connection uses of the rest of the speaker: the parsers by type and the handler. -/
structure App (β σ : Type) where
  parseBody : Nat → Bytes → PyResult β
  handleMsg : BgpMessage β → σ → Except Raised Unit × σ

namespace Speaker

/-- A connection; `calls` are the messages that were handed to `_handle_msg`. -/
structure Protocol (β σ : Type) where
  recvBuff : Bytes := []
  app : σ
  calls : List (BgpMessage β) := []
  deriving DecidableEq, Repr

/-- The message is out of the buffer, and the handler was called. -/
def Protocol.handed {β σ : Type} (p : Protocol β σ) (msg : BgpMessage β) (rest : Bytes) (s : σ) :
    Protocol β σ where
  recvBuff := rest
  app := s
  calls := p.calls ++ [msg]

def messageMarker : Bytes := List.replicate 16 0xff

/-- The four checks of the length. -/
def badLength (length ptype : Nat) : Bool :=
  (decide (length < 19) || decide (length > 4096)) ||
    (ptype == bgpMsgOpen && decide (length < 29)) ||
    (ptype == bgpMsgKeepAlive && length != 19) ||
    (ptype == bgpMsgUpdate && decide (length < 19))

variable {β σ : Type} (app : App β σ)

/-- The loop of `_data_received`; every iteration that does not end it takes a message out of the
buffer. -/
def loop : Nat → Protocol β σ → Except Raised Unit × Protocol β σ
  | 0, p => (.ok (), p)
  | n + 1, p =>
    if p.recvBuff.length < 19 then (.ok (), p)
    else
      let header := parseMsgHeader (p.recvBuff.take 19)
      if header.marker ≠ messageMarker then (.error (.bgpExc .notSync), p)
      else if badLength header.length header.type then
        (.error (.bgpExc (.badLen header.type header.length)), p)
      else if p.recvBuff.length < header.length then (.ok (), p)
      else
        match BgpMessage.parser app.parseBody p.recvBuff with
        | .error e => (.error e, p)
        | .ok (msg, rest) =>
          match app.handleMsg msg p.app with
          | (.error e, s) => (.error e, p.handed msg rest s)
          | (.ok _, s) => loop n (p.handed msg rest s)

def dataReceived (nextBytes : Bytes) (p : Protocol β σ) : Except Raised Unit × Protocol β σ :=
  let p := { p with recvBuff := p.recvBuff ++ nextBytes }
  loop app (p.recvBuff.length + 1) p

/-- Chunks are fed until there is an exception; the chunks after that are not read. -/
def feed : List Bytes → Protocol β σ → Except Raised Unit × Protocol β σ × List Bytes
  | [], p => (.ok (), p, [])
  | chunk :: chunks, p =>
    match dataReceived app chunk p with
    | (.ok _, p) => feed chunks p
    | (.error e, p) => (.error e, p, chunks)

/-! ## The stream as a whole -/

/-- The first message of a stream, by its header. -/
def nextFrame (buf : Bytes) : Frame Raised :=
  if buf.length < 19 then .wait
  else
    let header := parseMsgHeader (buf.take 19)
    if header.marker ≠ messageMarker then .bad (.bgpExc .notSync)
    else if badLength header.length header.type then
      .bad (.bgpExc (.badLen header.type header.length))
    else if buf.length < header.length then .wait
    else .message header.length

theorem nextFrame_eq_message {buf : Bytes} {n : Nat} (h : nextFrame buf = .message n) :
    19 ≤ n ∧ n ≤ buf.length ∧ (parseMsgHeader (buf.take 19)).length = n := by
  unfold nextFrame badLength at h
  grind

theorem nextFrame_append {buf : Bytes} (h : nextFrame buf ≠ .wait) (more : Bytes) :
    nextFrame (buf ++ more) = nextFrame buf := by
  have hlen : 19 ≤ buf.length := by
    unfold nextFrame at h
    grind
  unfold nextFrame at h ⊢
  grind

def framer : Framer UInt8 Raised where
  next := nextFrame
  length_pos := by
    intro buf n h
    have hn := nextFrame_eq_message h
    omega
  message_append := by
    intro buf n h more
    rw [nextFrame_append (by simp [h]), h]
  bad_append := by
    intro buf e h more
    rw [nextFrame_append (by simp [h]), h]

/-- Parsing and handling one message. -/
def consume (slice : Bytes) (s : σ × List (BgpMessage β)) :
    Consumed Raised (σ × List (BgpMessage β)) :=
  match BgpMessage.parser app.parseBody slice with
  | .error e => .rejected e
  | .ok (msg, _) =>
    match app.handleMsg msg s.1 with
    | (.ok _, s') => .done (s', s.2 ++ [msg])
    | (.error e, s') => .failed e (s', s.2 ++ [msg])

def raised : Except Raised Unit → Option Raised
  | .ok _ => none
  | .error e => some e

variable {app}

/-- The parser takes from the buffer what the header check found, and nothing else. -/
theorem parser_take {parseBody : Nat → Bytes → PyResult β} {buf : Bytes} {n : Nat}
    (h : nextFrame buf = .message n) :
    BgpMessage.parser parseBody buf =
      (BgpMessage.parser parseBody (buf.take n)).map fun r => (r.1, buf.drop n) := by
  obtain ⟨h19, hn, hlength⟩ := nextFrame_eq_message h
  have htake : (buf.take n).take 19 = buf.take 19 := by
    rw [take_take, Nat.min_eq_left h19]
  have hslice : slice (buf.take n) 19 n = slice buf 19 n := by
    unfold slice
    rw [drop_take, take_take, Nat.min_self]
  have hlen : (buf.take n).length = n := length_take_of_le hn
  unfold BgpMessage.parser
  simp only [htake, hlength, hslice, hlen]
  rw [if_neg (by omega), if_neg (by omega)]
  cases parseBody (parseMsgHeader (buf.take 19)).type (slice buf 19 n) <;> rfl

theorem loop_succ (n : Nat) (p : Protocol β σ) :
    loop app (n + 1) p =
      match nextFrame p.recvBuff with
      | .wait => (.ok (), p)
      | .bad e => (.error e, p)
      | .message _ =>
        match BgpMessage.parser app.parseBody p.recvBuff with
        | .error e => (.error e, p)
        | .ok (msg, rest) =>
          match app.handleMsg msg p.app with
          | (.error e, s) => (.error e, p.handed msg rest s)
          | (.ok _, s) => loop app n (p.handed msg rest s) := by
  rw [loop, nextFrame]
  split
  · rfl
  dsimp only
  split
  · rfl
  split
  · rfl
  split <;> rfl

/-- The loop drains the buffer. -/
theorem drains_loop (n : Nat) (p : Protocol β σ) (h : p.recvBuff.length < n) :
    Drains framer (consume app) p.recvBuff (p.app, p.calls) (loop app n p).2.recvBuff
      ((loop app n p).2.app, (loop app n p).2.calls) (raised (loop app n p).1) := by
  induction n generalizing p with
  | zero => omega
  | succ n ih =>
    rw [loop_succ]
    cases hnext : nextFrame p.recvBuff with
    | wait => exact .wait hnext
    | bad e => exact .bad hnext
    | message k =>
      have hk := nextFrame_eq_message hnext
      rw [parser_take hnext]
      cases hparse : BgpMessage.parser app.parseBody (p.recvBuff.take k) with
      | error e => exact .rejected hnext (by simp [consume, hparse])
      | ok r =>
        obtain ⟨msg, rest⟩ := r
        dsimp only [Except.map]
        rcases hhandle : app.handleMsg msg p.app with ⟨_ | _, s⟩
        · exact .failed hnext (by simp only [consume, hparse, hhandle]; rfl)
        · have hdrop : (p.recvBuff.drop k).length < n := by
            rw [length_drop]
            omega
          exact .done hnext (by simp only [consume, hparse, hhandle]; rfl)
            (ih (p.handed msg (p.recvBuff.drop k) s) hdrop)

theorem drains_dataReceived (nextBytes : Bytes) (p : Protocol β σ) :
    Drains framer (consume app) (p.recvBuff ++ nextBytes) (p.app, p.calls)
      (dataReceived app nextBytes p).2.recvBuff
      ((dataReceived app nextBytes p).2.app, (dataReceived app nextBytes p).2.calls)
      (raised (dataReceived app nextBytes p).1) :=
  drains_loop _ { p with recvBuff := p.recvBuff ++ nextBytes } (Nat.lt_succ_self _)

/-- Whatever the chunks are, they drain as the whole stream does. -/
theorem drains_feed (chunks : List Bytes) (p : Protocol β σ)
    (hwait : nextFrame p.recvBuff = .wait) :
    Drains framer (consume app) (p.recvBuff ++ chunks.flatten) (p.app, p.calls)
      ((feed app chunks p).2.1.recvBuff ++ (feed app chunks p).2.2.flatten)
      ((feed app chunks p).2.1.app, (feed app chunks p).2.1.calls)
      (raised (feed app chunks p).1) := by
  induction chunks generalizing p with
  | nil =>
    simp only [feed, flatten_nil, append_nil]
    exact .wait hwait
  | cons chunk chunks ih =>
    have hchunk := @drains_dataReceived _ _ app chunk p
    rw [flatten_cons, ← append_assoc]
    unfold feed
    rcases hreceived : dataReceived app chunk p with ⟨e | u, p'⟩
    · rw [hreceived] at hchunk
      exact hchunk.append_of_error chunks.flatten
    · rw [hreceived] at hchunk
      exact hchunk.append (ih p' hchunk.next_eq_wait)

theorem feed_unread {chunks : List Bytes} {p : Protocol β σ}
    (h : raised (feed app chunks p).1 = none) : (feed app chunks p).2.2 = [] := by
  induction chunks generalizing p with
  | nil => rfl
  | cons chunk chunks ih =>
    unfold feed at h ⊢
    rcases hreceived : dataReceived app chunk p with ⟨e | u, p'⟩
    · rw [hreceived] at h
      cases h
    · rw [hreceived] at h
      exact ih h

/-! ## Slices of the stream -/

/-- The slice is as long as its header says, and it parses to the message. -/
def ParsesTo (app : App β σ) (slice : Bytes) (msg : BgpMessage β) : Prop :=
  (parseMsgHeader (slice.take 19)).length = slice.length ∧
    BgpMessage.parser app.parseBody slice = .ok (msg, [])

/-- How receiving ends: the rest is not complete, or has a bad header, or cannot be parsed, or the
handler of the last message raised. -/
def EndsWith (app : App β σ) (rest : Bytes) (calls : List (BgpMessage β)) : Option Raised → Prop
  | none => nextFrame rest = .wait
  | some e => nextFrame rest = .bad e ∨
    (∃ n, nextFrame rest = .message n ∧
      BgpMessage.parser app.parseBody (rest.take n) = .error e) ∨
    ∃ msg ∈ calls.getLast?, ∃ s s', app.handleMsg msg s = (.error e, s')

theorem parsesTo_take {buf rest : Bytes} {n : Nat} {msg : BgpMessage β}
    (h : nextFrame buf = .message n)
    (hparse : BgpMessage.parser app.parseBody (buf.take n) = .ok (msg, rest)) :
    ParsesTo app (buf.take n) msg := by
  obtain ⟨h19, hn, hlength⟩ := nextFrame_eq_message h
  have hheader : (parseMsgHeader ((buf.take n).take 19)).length = (buf.take n).length := by
    rw [take_take, Nat.min_eq_left h19, hlength, length_take_of_le hn]
  refine ⟨hheader, ?_⟩
  have hrest : rest = (buf.take n).drop (parseMsgHeader ((buf.take n).take 19)).length := by
    unfold BgpMessage.parser at hparse
    grind
  rw [hparse, hrest, hheader, drop_length]

variable {slice : Bytes} {s s' : σ × List (BgpMessage β)}

theorem consume_eq_done (h : consume app slice s = .done s') :
    ∃ msg rest u, BgpMessage.parser app.parseBody slice = .ok (msg, rest) ∧
      app.handleMsg msg s.1 = (.ok u, s'.1) ∧ s'.2 = s.2 ++ [msg] := by
  unfold consume at h
  grind

theorem consume_eq_failed {e : Raised} (h : consume app slice s = .failed e s') :
    ∃ msg rest, BgpMessage.parser app.parseBody slice = .ok (msg, rest) ∧
      app.handleMsg msg s.1 = (.error e, s'.1) ∧ s'.2 = s.2 ++ [msg] := by
  unfold consume at h
  grind

theorem consume_eq_rejected {s : σ × List (BgpMessage β)} {e : Raised}
    (h : consume app slice s = .rejected e) :
    BgpMessage.parser app.parseBody slice = .error e := by
  unfold consume at h
  grind

/-- What is drained are consecutive slices of the stream. -/
theorem slices_of_drains {stream rest : Bytes} {r : Option Raised}
    (h : Drains framer (consume app) stream s rest s' r) :
    ∃ slices calls, stream = slices.flatten ++ rest ∧ s'.2 = s.2 ++ calls ∧
      List.Forall₂ (ParsesTo app) slices calls ∧ EndsWith app rest calls r := by
  induction h with
  | wait hnext => exact ⟨[], [], rfl, by simp, .nil, hnext⟩
  | bad hnext => exact ⟨[], [], rfl, by simp, .nil, .inl hnext⟩
  | rejected hnext hc =>
    exact ⟨[], [], rfl, by simp, .nil, .inr (.inl ⟨_, hnext, consume_eq_rejected hc⟩)⟩
  | @failed buf s n e s' hnext hc =>
    obtain ⟨msg, rest, hparse, hhandle, hcalls⟩ := consume_eq_failed hc
    refine ⟨[buf.take n], [msg], by simp, hcalls, .cons (parsesTo_take hnext hparse) .nil, ?_⟩
    exact .inr (.inr ⟨msg, rfl, s.1, s'.1, hhandle⟩)
  | @done buf s n s' rest s'' r hnext hc _ ih =>
    obtain ⟨msg, rest', u, hparse, -, hcalls⟩ := consume_eq_done hc
    obtain ⟨slices, calls, hstream, hcalls', hforall, hends⟩ := ih
    refine ⟨buf.take n :: slices, msg :: calls, ?_, ?_,
      .cons (parsesTo_take hnext hparse) hforall, ?_⟩
    · rw [flatten_cons, append_assoc, ← hstream, take_append_drop]
    · rw [hcalls', hcalls, append_assoc, singleton_append]
    · cases r with
      | none => exact hends
      | some e =>
        refine hends.imp_right (Or.imp_right ?_)
        rintro ⟨last, hlast, hraises⟩
        refine ⟨last, ?_, hraises⟩
        rw [getLast?_cons, hlast]
        rfl

/-- For every stream there are the calls, the exception if there is one, and the rest of the stream
that is not delivered, and they are the same for every way to cut the stream into chunks. -/
theorem feed_chunks (app : App β σ) (stream : Bytes) (s : σ) :
    ∃ calls rest s' r,
      (∃ slices, stream = slices.flatten ++ rest ∧ List.Forall₂ (ParsesTo app) slices calls) ∧
      EndsWith app rest calls r ∧
      ∀ chunks : List Bytes, chunks.flatten = stream →
        let fed := feed app chunks { app := s }
        fed.2.1.calls = calls ∧ fed.2.1.app = s' ∧ raised fed.1 = r ∧
          fed.2.1.recvBuff ++ fed.2.2.flatten = rest ∧ (r = none → fed.2.1.recvBuff = rest) := by
  have hfeed : ∀ chunks : List Bytes, chunks.flatten = stream →
      let fed := feed app chunks { app := s }
      Drains framer (consume app) stream (s, []) (fed.2.1.recvBuff ++ fed.2.2.flatten)
        (fed.2.1.app, fed.2.1.calls) (raised fed.1) := by
    rintro chunks rfl
    exact drains_feed chunks { app := s } rfl
  have hwhole := hfeed [stream] (by simp)
  obtain ⟨slices, calls, hslices, hcalls, hforall, hends⟩ := slices_of_drains hwhole
  replace hcalls : (feed app [stream] { app := s }).2.1.calls = calls := hcalls
  refine ⟨calls, _, (feed app [stream] { app := s }).2.1.app, _, ⟨slices, hslices, hforall⟩, hends,
    fun chunks hchunks => ?_⟩
  obtain ⟨hrest, hstate, hraised⟩ := (hfeed chunks hchunks).unique hwhole
  rw [Prod.mk.injEq, hcalls] at hstate
  refine ⟨hstate.2, hstate.1, hraised, hrest, fun hnone => ?_⟩
  rw [← hrest, feed_unread (hraised.trans hnone), flatten_nil, append_nil]

end Speaker

end BebaCtrl.Bgp
