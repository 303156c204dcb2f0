import BebaCtrl.Bgp.Packet

/-!
# The stream parser

`StreamParser.parse` appends what arrives to its queue and calls `try_parse` until that raises
`TooSmallException`. The queue is a `bytearray`, whose `append` takes a single byte, so the parser
works on a stream that comes byte by byte and raises `ValueError` on every other chunk.
-/

namespace BebaCtrl.Bgp.StreamParser

open List

def tooSmall : Raised := .pyErr (.other "TooSmallException")

/-- A subclass asks for more input by `TooSmallException`: what it makes of the front of the queue
otherwise does not change when more arrives. -/
structure Subclass (μ : Type) where
  tryParse : Bytes → Except Raised (μ × Bytes)
  tryParse_append : ∀ q more, tryParse q ≠ .error tooSmall →
    tryParse (q ++ more) = (tryParse q).map fun r => (r.1, r.2 ++ more)

variable {μ : Type} (p : Subclass μ)

/-- The loop of `parse`, which is still running after `n` rounds when the result is `none`. -/
def loop : Nat → Bytes → Option (Except Raised (List μ) × Bytes)
  | 0, _ => none
  | n + 1, q =>
    match p.tryParse q with
    | .error e => some (if e = tooSmall then .ok [] else .error e, q)
    | .ok (msg, q) => (loop n q).map fun r => (r.1.map (msg :: ·), r.2)

/-- `bytearray.append` of a string. -/
def append (q data : Bytes) : PyResult Bytes :=
  if data.length = 1 then .ok (q ++ data) else .error .valueError

def parse (n : Nat) (data q : Bytes) : Option (Except Raised (List μ) × Bytes) :=
  match append q data with
  | .error e => some (.error (.pyErr e), q)
  | .ok q => loop p n q

/-- The messages of all calls, up to the first one that raises. -/
def feed (n : Nat) : List Bytes → Bytes → Option (Except Raised (List μ) × Bytes)
  | [], q => some (.ok [], q)
  | chunk :: chunks, q =>
    match parse p n chunk q with
    | none => none
    | some (.error e, q) => some (.error e, q)
    | some (.ok msgs, q) => (feed n chunks q).map fun r => (r.1.map (msgs ++ ·), r.2)

/-- The messages of a stream and its unparsed rest. -/
inductive Drained : Bytes → List μ → Bytes → Prop where
  | wait {q} : p.tryParse q = .error tooSmall → Drained q [] q
  | message {q msg q' msgs rest} : p.tryParse q = .ok (msg, q') → Drained q' msgs rest →
      Drained q (msg :: msgs) rest

/-- All calls return, together the messages of the whole stream, and its rest is kept. -/
def Meets (chunks : List Bytes) : Prop :=
  ∃ msgs rest, (∃ n, feed p n chunks [] = some (.ok msgs, rest)) ∧
    Drained p chunks.flatten msgs rest

variable {p} {q more rest : Bytes} {msgs : List μ}

theorem tooSmall_of_append (h : p.tryParse (q ++ more) = .error tooSmall) :
    p.tryParse q = .error tooSmall := by
  by_contra hne
  rw [p.tryParse_append q more hne] at h
  cases htry : p.tryParse q <;> simp_all [Except.map]

theorem Drained.needsMore (h : Drained p q msgs rest) : p.tryParse rest = .error tooSmall := by
  induction h with
  | wait hwait => exact hwait
  | message _ _ ih => exact ih

/-- A stream of which a part has arrived: the part is drained first. -/
theorem Drained.split (h : Drained p (q ++ more) msgs rest) :
    ∃ first q' later, Drained p q first q' ∧ Drained p (q' ++ more) later rest ∧
      msgs = first ++ later := by
  generalize hstream : q ++ more = stream at h
  induction h generalizing q with
  | wait hwait =>
    subst hstream
    exact ⟨[], q, [], .wait (tooSmall_of_append hwait), .wait hwait, rfl⟩
  | message hmsg hrest ih =>
    subst hstream
    by_cases hq : p.tryParse q = .error tooSmall
    · exact ⟨[], q, _, .wait hq, .message hmsg hrest, rfl⟩
    · rw [p.tryParse_append q more hq] at hmsg
      cases htry : p.tryParse q with
      | error e => simp [htry, Except.map] at hmsg
      | ok r =>
        simp only [htry, Except.map, Except.ok.injEq, Prod.mk.injEq] at hmsg
        obtain ⟨first, q', later, hfirst, hlater, rfl⟩ := ih hmsg.2
        exact ⟨_, q', later, .message htry hfirst, hlater, by simp [hmsg.1]⟩

theorem loop_of_drained (h : Drained p q msgs rest) :
    ∃ n, ∀ k, loop p (n + k) q = some (.ok msgs, rest) := by
  induction h with
  | wait hwait => exact ⟨1, fun k => by simp [Nat.add_comm 1, loop, hwait]⟩
  | message hmsg _ ih =>
    obtain ⟨n, hn⟩ := ih
    exact ⟨n + 1, fun k => by simp [Nat.add_right_comm n 1, loop, hmsg, hn, Except.map]⟩

/-- Byte by byte, every call drains what has arrived. -/
theorem feed_of_drained {chunks : List Bytes} (hone : ∀ c ∈ chunks, c.length = 1)
    (h : Drained p (q ++ chunks.flatten) msgs rest) (hq : p.tryParse q = .error tooSmall) :
    ∃ n, ∀ k, feed p (n + k) chunks q = some (.ok msgs, rest) := by
  induction chunks generalizing q msgs with
  | nil =>
    refine ⟨0, fun k => ?_⟩
    rw [flatten_nil, append_nil] at h
    cases h with
    | wait => rfl
    | message hmsg => simp [hq] at hmsg
  | cons chunk chunks ih =>
    rw [flatten_cons, ← append_assoc] at h
    obtain ⟨first, q', later, hfirst, hlater, rfl⟩ := h.split
    obtain ⟨n, hn⟩ := loop_of_drained hfirst
    obtain ⟨n', hn'⟩ := ih (fun c hc => hone c (by simp [hc])) hlater hfirst.needsMore
    refine ⟨n + n', fun k => ?_⟩
    have hloop := hn (n' + k)
    have hfeed := hn' (n + k)
    rw [← Nat.add_assoc] at hloop
    rw [← Nat.add_assoc, Nat.add_comm n' n] at hfeed
    simp [feed, parse, append, hone chunk (by simp), hloop, hfeed, Except.map]

theorem length_eq_one_of_feed {n : Nat} {chunks : List Bytes}
    (h : feed p n chunks q = some (.ok msgs, rest)) : ∀ c ∈ chunks, c.length = 1 := by
  induction chunks generalizing q msgs with
  | nil => simp
  | cons chunk chunks ih =>
    simp only [feed, parse, append] at h
    by_cases hone : chunk.length = 1
    · simp only [hone, if_true] at h
      cases hloop : loop p n (q ++ chunk) with
      | none => simp [hloop] at h
      | some r =>
        obtain ⟨r, q'⟩ := r
        cases r with
        | error e => simp [hloop] at h
        | ok first =>
          simp only [hloop, Option.map_eq_some_iff] at h
          obtain ⟨⟨r, q''⟩, hfeed, hr⟩ := h
          cases r with
          | error e => simp [Except.map] at hr
          | ok later =>
            cases hr
            exact forall_mem_cons.2 ⟨hone, ih hfeed⟩
    · simp [hone] at h

/-- The parser does what it is for just when the stream arrives byte by byte and has an end, which
it has when every message takes something off the queue and no message is malformed. -/
theorem meets_iff (p : Subclass μ) (chunks : List Bytes) :
    Meets p chunks ↔
      (∀ c ∈ chunks, c.length = 1) ∧ ∃ msgs rest, Drained p chunks.flatten msgs rest := by
  constructor
  · rintro ⟨msgs, rest, ⟨n, hfeed⟩, hdrained⟩
    exact ⟨length_eq_one_of_feed hfeed, msgs, rest, hdrained⟩
  · rintro ⟨hone, msgs, rest, hdrained⟩
    have hnil : p.tryParse [] = .error tooSmall := by
      apply tooSmall_of_append
      exact hdrained.needsMore
    obtain ⟨n, hn⟩ := feed_of_drained (q := []) hone hdrained hnil
    exact ⟨msgs, rest, ⟨n, hn 0⟩, hdrained⟩

/-! ## BGP -/

theorem parser_append {β : Type} {parseBody : Nat → Bytes → PyResult β} (q more : Bytes)
    (h : BgpMessage.parser parseBody q ≠ .error tooSmall) :
    BgpMessage.parser parseBody (q ++ more) =
      (BgpMessage.parser parseBody q).map fun r => (r.1, r.2 ++ more) := by
  have hlen : ¬(q.length < 19 ∨ q.length < (parseMsgHeader (q.take 19)).length) := by
    intro hlt
    simp [BgpMessage.parser, hlt, tooSmall] at h
  have hle : 19 ≤ q.length ∧ (parseMsgHeader (q.take 19)).length ≤ q.length := by omega
  have htake : (q ++ more).take 19 = q.take 19 := take_append_of_le_length hle.1
  have hslice : slice (q ++ more) 19 (parseMsgHeader (q.take 19)).length =
      slice q 19 (parseMsgHeader (q.take 19)).length := by
    unfold slice
    rw [drop_append_of_le_length hle.1, take_append_of_le_length (by simp; omega)]
  unfold BgpMessage.parser
  simp only [htake, hslice, if_neg hlen, drop_append_of_le_length hle.2]
  rw [if_neg (by simp; omega)]
  cases parseBody (parseMsgHeader (q.take 19)).type (slice q 19 _) <;> rfl

/-- `try_parse` of BGP. -/
def bgp : Subclass (BgpMessage Wire.Body) where
  tryParse := BgpMessage.parser Wire.parseBody
  tryParse_append := parser_append

/-- A message with the length 0 is never taken off the queue. -/
theorem not_drained_of_tryParse_self {msg : BgpMessage Wire.Body}
    {msgs : List (BgpMessage Wire.Body)}
    (h : bgp.tryParse q = .ok (msg, q)) : ¬Drained bgp q msgs rest := by
  intro hdrained
  induction hdrained with
  | wait hwait => simp [h] at hwait
  | message hmsg _ ih =>
    rw [h] at hmsg
    cases hmsg
    exact ih h

def keepAliveOfLength (length : UInt8) : Bytes := Speaker.messageMarker ++ [0, length, 4]

/-- A KEEPALIVE in one piece, and one with the length 0 byte by byte. -/
theorem not_meets_keepAlive :
    ¬Meets bgp [keepAliveOfLength 19] ∧ ¬Meets bgp ((keepAliveOfLength 0).map fun b => [b]) := by
  constructor
  · rintro ⟨msgs, rest, ⟨n, hfeed⟩, -⟩
    exact absurd (length_eq_one_of_feed hfeed (keepAliveOfLength 19) (by simp)) (by decide)
  · rintro ⟨msgs, rest, -, hdrained⟩
    have hself : bgp.tryParse (keepAliveOfLength 0) =
        .ok (⟨0, 4, .keepAlive⟩, keepAliveOfLength 0) := rfl
    exact not_drained_of_tryParse_self hself hdrained

end BebaCtrl.Bgp.StreamParser
