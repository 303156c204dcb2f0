import BebaCtrl.Lib.Framing
import BebaCtrl.Ofproto.OfprotoParser

/-!
# The receive loop of a datapath

`Datapath._recv_loop` reads from the socket, cuts the stream into OpenFlow messages and hands each
one to `ofproto_parser.msg` and to the handlers of the resulting event. The loop is a state
machine: it waits in `recv`, tests the inner `while` in `frame`, and is `busy` with one message
while the parser and the handlers run. It ends `closed`, or `raised` when an exception leaves it.

`handed` records the byte strings passed to `ofproto_parser.msg`; the program has no such field.
The parsers of the OpenFlow versions and the applications behind the handlers are parameters.
-/

namespace BebaCtrl

open List

/-- What surrounds the loop: message parsers, the delivery of a parsed message to observers and
handlers (`none` when it does not return), and the flag `close_requested` of the datapath. -/
structure App (σ μ : Type) where
  parsers : Nat → MsgParser μ
  dispatch : σ → μ → Option (PyResult σ)
  closeRequested : σ → Bool

/-- What `socket.recv` does: return bytes (none at the end of the stream), time out, or fail. -/
inductive SockEvent where
  | data (bs : Bytes)
  | timeout
  | error
  deriving DecidableEq, Repr

inductive Phase where
  | recv
  | frame
  | busy (h : Header)
  | closed
  | raised (e : PyErr)
  deriving DecidableEq, Repr

structure Recv (σ : Type) where
  buf : Bytes
  requiredLen : Nat
  count : Nat
  dp : σ
  handed : List Bytes
  phase : Phase

variable {σ μ : Type}

namespace Recv

def start (dp : σ) : Recv σ := ⟨[], ofpHeaderSize, 0, dp, [], .recv⟩

/-- The part of the outer loop from `recv` to the test of the inner loop. -/
def onRecv (app : App σ μ) (r : Recv σ) : SockEvent → Recv σ
  | .timeout => if app.closeRequested r.dp then { r with phase := .closed } else r
  | .error => { r with phase := .closed }
  | .data bs =>
    if bs.length = 0 ∨ app.closeRequested r.dp then { r with phase := .closed }
    else { r with buf := r.buf ++ bs, phase := .frame }

/-- The inner loop from its test to the call of `ofproto_parser.msg`. -/
def frameStep (r : Recv σ) : Recv σ :=
  if r.requiredLen ≤ r.buf.length then
    match header r.buf with
    | .error e => { r with phase := .raised e }
    | .ok h =>
      if r.buf.length < h.msgLen then { r with requiredLen := h.msgLen, phase := .recv }
      else
        { r with
          requiredLen := h.msgLen
          handed := r.handed ++ [r.buf.take h.msgLen]
          phase := .busy h }
  else { r with phase := .recv }

/-- `ofproto_parser.msg` and, when it gives a message, the observers and handlers of its event. -/
def deliver (app : App σ μ) (dp : σ) (h : Header) (bs : Bytes) : Option (PyResult σ) :=
  match msg app.parsers h bs with
  | none => none
  | some (.error e) => some (.error e)
  | some (.ok none) => some (.ok dp)
  | some (.ok (some m)) => app.dispatch dp m

/-- The rest of a round of the inner loop; every 2049th message yields to other greenlets. -/
def busyStep (app : App σ μ) (h : Header) (r : Recv σ) : Option (Recv σ) :=
  match deliver app r.dp h (r.buf.take h.msgLen) with
  | none => none
  | some (.error e) => some { r with phase := .raised e }
  | some (.ok dp) => some
    { r with
      dp := dp
      buf := r.buf.drop r.requiredLen
      requiredLen := ofpHeaderSize
      count := if r.count + 1 > 2048 then 0 else r.count + 1
      phase := .frame }

/-- Run the inner loop until it waits for the socket or ends. -/
def settle (app : App σ μ) : Nat → Recv σ → Option (Recv σ)
  | 0, _ => none
  | n + 1, r =>
    match r.phase with
    | .frame => settle app n r.frameStep
    | .busy h => (busyStep app h r).bind (settle app n)
    | _ => some r

/-- Feed a sequence of socket events, each taken while the loop waits in `recv`. -/
def feed (app : App σ μ) (fuel : Nat) : Recv σ → List SockEvent → Option (Recv σ)
  | r, [] => some r
  | r, ev :: evs =>
    match r.phase with
    | .recv => (settle app fuel (r.onRecv app ev)).bind (feed app fuel · evs)
    | _ => some r

end Recv

/-! ## Well-formed streams -/

/-- A byte string with a header whose length field is its own length. -/
def WellFormed (m : Bytes) : Prop := ofpHeaderSize ≤ m.length ∧ (headerOf m).msgLen = m.length

instance (m : Bytes) : Decidable (WellFormed m) :=
  inferInstanceAs (Decidable (ofpHeaderSize ≤ m.length ∧ (headerOf m).msgLen = m.length))

/-- The bytes delivered by a sequence of socket events. -/
def received : List SockEvent → Bytes
  | [] => []
  | .data bs :: evs => bs ++ received evs
  | _ :: evs => received evs

/-- The socket only delivers non-empty chunks and times out. -/
def Chunked (evs : List SockEvent) : Prop :=
  ∀ ev ∈ evs, ev = .timeout ∨ ∃ bs, ev = .data bs ∧ bs ≠ []

/-- Delivering the messages one after another returns each time and takes the datapath from `dp`
to `dp'`, and nothing asks to close the connection meanwhile. -/
inductive Delivers (app : App σ μ) : σ → List Bytes → σ → Prop where
  | nil {dp : σ} (hopen : app.closeRequested dp = false) : Delivers app dp [] dp
  | cons {dp dp' dp'' : σ} {m : Bytes} {ms : List Bytes} (hopen : app.closeRequested dp = false)
      (hm : Recv.deliver app dp (headerOf m) m = some (.ok dp')) (hms : Delivers app dp' ms dp'') :
      Delivers app dp (m :: ms) dp''

variable {app : App σ μ} {ms : List Bytes}

/-- Delivering the messages one after another, with those that are handed over and the end of it:
all return, or one raises. -/
inductive Runs (app : App σ μ) : σ → List Bytes → List Bytes → PyResult σ → Prop where
  | nil {dp : σ} (hopen : app.closeRequested dp = false) : Runs app dp [] [] (.ok dp)
  | cons {dp dp' : σ} {m : Bytes} {ms handed : List Bytes} {res : PyResult σ}
      (hopen : app.closeRequested dp = false)
      (hm : Recv.deliver app dp (headerOf m) m = some (.ok dp'))
      (hms : Runs app dp' ms handed res) : Runs app dp (m :: ms) (m :: handed) res
  | raise {dp : σ} {m : Bytes} {ms : List Bytes} {e : PyErr} (hopen : app.closeRequested dp = false)
      (hm : Recv.deliver app dp (headerOf m) m = some (.error e)) :
      Runs app dp (m :: ms) [m] (.error e)

variable {dp dp' : σ} {as bs handed : List Bytes} {res : PyResult σ}

theorem Runs.isOpen (h : Runs app dp ms handed res) : app.closeRequested dp = false := by
  cases h <;> assumption

theorem Delivers.isOpen_end (h : Delivers app dp ms dp') : app.closeRequested dp' = false := by
  induction h with
  | nil ho => exact ho
  | cons _ _ _ ih => exact ih

theorem Delivers.runs (h : Delivers app dp as dp') (h' : Runs app dp' bs handed res) :
    Runs app dp (as ++ bs) (as ++ handed) res := by
  induction h with
  | nil => exact h'
  | cons ho hm _ ih => exact .cons ho hm (ih h')

theorem Runs.of_append (h : Runs app dp (as ++ bs) handed res) :
    (∃ dp' handed', Runs app dp as as (.ok dp') ∧ Runs app dp' bs handed' res ∧
      handed = as ++ handed') ∨ ∃ e, res = .error e ∧ Runs app dp as handed (.error e) := by
  induction as generalizing dp handed with
  | nil => exact .inl ⟨dp, handed, .nil h.isOpen, h, rfl⟩
  | cons m as ih =>
    cases h with
    | raise ho hm => exact .inr ⟨_, rfl, .raise ho hm⟩
    | cons ho hm hms =>
      rcases ih hms with ⟨dp', handed', ha, hb, rfl⟩ | ⟨e, rfl, ha⟩
      · exact .inl ⟨dp', handed', .cons ho hm ha, hb, rfl⟩
      · exact .inr ⟨e, rfl, .cons ho hm ha⟩

variable {r : Recv σ} {n : Nat}

namespace Recv

/-- `required_len` is the header size, or the length field of the header at the front of `buf`. -/
def ReqOk (r : Recv σ) : Prop :=
  r.requiredLen = ofpHeaderSize ∨
    (ofpHeaderSize ≤ r.buf.length ∧ r.requiredLen = (headerOf r.buf).msgLen)

variable {m rest tail : Bytes}

theorem frameStep_message (hbuf : r.buf = m ++ rest) (hm : WellFormed m) (hreq : r.ReqOk) :
    r.frameStep = { r with
      requiredLen := m.length
      handed := r.handed ++ [m]
      phase := .busy (headerOf m) } := by
  obtain ⟨hsize, hlen⟩ := hm
  have hhead : headerOf r.buf = headerOf m := by rw [hbuf, headerOf_append hsize]
  have htotal : r.buf.length = m.length + rest.length := by rw [hbuf, length_append]
  have htest : r.requiredLen ≤ r.buf.length := by
    rcases hreq with h | ⟨_, h⟩
    · omega
    · rw [h, hhead, hlen]; omega
  rw [frameStep, if_pos htest, header_eq (by omega), hhead]
  simp only [hlen]
  rw [if_neg (by omega), hbuf, take_left]

/-- One round of the inner loop on a message that is delivered without an exception. -/
theorem settle_message (n : Nat) (hphase : r.phase = .frame) (hbuf : r.buf = m ++ rest)
    (hm : WellFormed m) (hreq : r.ReqOk) (hd : deliver app r.dp (headerOf m) m = some (.ok dp')) :
    settle app (n + 2) r = settle app n
      { buf := rest
        requiredLen := ofpHeaderSize
        count := if r.count + 1 > 2048 then 0 else r.count + 1
        dp := dp'
        handed := r.handed ++ [m]
        phase := .frame } := by
  have htake : r.buf.take (headerOf m).msgLen = m := by rw [hbuf, hm.2, take_left]
  have hdrop : r.buf.drop m.length = rest := by rw [hbuf, drop_left]
  simp [settle, hphase, frameStep_message hbuf hm hreq, busyStep, htake, hd, hdrop]

variable {e : PyErr}

theorem settle_message_error (n : Nat) (hphase : r.phase = .frame) (hbuf : r.buf = m ++ rest)
    (hm : WellFormed m) (hreq : r.ReqOk) (hd : deliver app r.dp (headerOf m) m = some (.error e)) :
    settle app (n + 3) r = some { r with
      requiredLen := m.length
      handed := r.handed ++ [m]
      phase := .raised e } := by
  have htake : r.buf.take (headerOf m).msgLen = m := by rw [hbuf, hm.2, take_left]
  simp [settle, hphase, frameStep_message hbuf hm hreq, busyStep, htake, hd]

/-- With less than a message in the buffer the loop goes back to wait for more. -/
theorem frameStep_part (hwf : ∀ m ∈ ms, WellFormed m) (hpart : PartOfNext ms r.buf)
    (hreq : r.ReqOk) :
    ∃ q, r.frameStep = { r with requiredLen := q, phase := .recv } ∧
      ReqOk { r with requiredLen := q, phase := .recv } := by
  by_cases htest : r.requiredLen ≤ r.buf.length
  · cases ms with
    | nil =>
      -- an empty buffer passes the test only for a message of length zero
      have hnil : r.buf = [] := hpart
      rcases hreq with h | ⟨h, _⟩
      · rw [h, hnil] at htest; exact absurd htest (by decide)
      · rw [hnil] at h; exact absurd h (by decide)
    | cons m ms =>
      obtain ⟨hsize, hlen⟩ := hwf m (by simp)
      have h8 : ofpHeaderSize ≤ r.buf.length := by
        rcases hreq with h | ⟨h, _⟩
        · omega
        · exact h
      have hhead : headerOf r.buf = headerOf m := (headerOf_extend h8 hpart.1).symm
      have hshort : r.buf.length < (headerOf r.buf).msgLen := by rw [hhead, hlen]; exact hpart.2
      refine ⟨(headerOf r.buf).msgLen, ?_, .inr ⟨h8, rfl⟩⟩
      rw [frameStep, if_pos htest, header_eq h8]
      simp only [if_pos hshort]
  · exact ⟨r.requiredLen, by rw [frameStep, if_neg htest], hreq⟩

/-- The loop as it is when delivering has ended: it waits with the bytes `tail`, or the exception
has left it. -/
def Ended (r : Recv σ) (tail : Bytes) : PyResult σ → Prop
  | .ok dp => r.phase = .recv ∧ r.buf = tail ∧ r.dp = dp ∧ r.ReqOk
  | .error e => r.phase = .raised e

/-- The inner loop delivers the complete messages of the buffer up to the first exception, and keeps
the rest if there is none. -/
theorem settle_runs {next : List Bytes} (hphase : r.phase = .frame)
    (hbuf : r.buf = ms.flatten ++ tail)
    (hwf : ∀ m ∈ ms, WellFormed m) (hnext : ∀ m ∈ next, WellFormed m) (hpart : PartOfNext next tail)
    (hreq : r.ReqOk) (hd : Runs app r.dp ms handed res) (hn : 2 * ms.length + 3 ≤ n) :
    ∃ r', settle app n r = some r' ∧ r'.handed = r.handed ++ handed ∧ r'.Ended tail res := by
  obtain ⟨n, rfl⟩ : ∃ k, n = k + 3 := ⟨n - 3, by omega⟩
  induction ms generalizing r handed n with
  | nil =>
    cases hd
    obtain rfl : r.buf = tail := hbuf
    obtain ⟨q, hq, hreq'⟩ := frameStep_part hnext hpart hreq
    refine ⟨{ r with requiredLen := q, phase := .recv }, ?_, by simp, rfl, rfl, rfl, hreq'⟩
    simp only [settle, hphase, hq]
  | cons m ms ih =>
    have hfront : r.buf = m ++ (ms.flatten ++ tail) := by simpa using hbuf
    have hm := hwf m (by simp)
    cases hd with
    | raise _ he => exact ⟨_, settle_message_error n hphase hfront hm hreq he, rfl, rfl⟩
    | cons _ hok hms =>
      obtain ⟨n, rfl⟩ : ∃ k, n = k + 2 := ⟨n - 2, by simp at hn; omega⟩
      obtain ⟨r', hs, hh, hended⟩ := ih (r := ⟨_, ofpHeaderSize,
        if r.count + 1 > 2048 then 0 else r.count + 1, _, r.handed ++ [m], .frame⟩) rfl rfl
        (fun x hx => hwf x (by simp [hx])) (.inl rfl) hms n (by simp at hn; omega)
      exact ⟨r', (settle_message _ hphase hfront hm hreq hok).trans hs, by simpa using hh, hended⟩

/-- The loop waits in `recv` with part of the next of the messages `ms` in its buffer. -/
structure Waiting (r : Recv σ) (ms : List Bytes) : Prop where
  phase : r.phase = .recv
  req : r.ReqOk
  part : PartOfNext ms r.buf

theorem ReqOk.append (h : r.ReqOk) (bs : Bytes) :
    ReqOk { r with buf := r.buf ++ bs, phase := .frame } := by
  rcases h with h | ⟨h8, h⟩
  · exact .inl h
  · refine .inr ⟨?_, ?_⟩
    · simp only [length_append]; omega
    · simp only [headerOf_append h8, h]

variable {evs : List SockEvent} {fuel : Nat}

theorem feed_timeout (hphase : r.phase = .recv) (hopen : app.closeRequested r.dp = false)
    (hfuel : 0 < fuel) :
    feed app fuel r (.timeout :: evs) = feed app fuel r evs := by
  obtain ⟨n, rfl⟩ : ∃ k, fuel = k + 1 := ⟨fuel - 1, by omega⟩
  simp [feed, hphase, onRecv, hopen, settle]

theorem feed_data {bs : Bytes} (hphase : r.phase = .recv) (hopen : app.closeRequested r.dp = false)
    (hne : bs ≠ []) :
    feed app fuel r (.data bs :: evs) =
      (settle app fuel { r with buf := r.buf ++ bs, phase := .frame }).bind
        (feed app fuel · evs) := by
  simp [feed, hphase, onRecv, hopen, hne, or_self]

/-- Chunk by chunk, the loop delivers every message that has arrived up to the first exception. -/
theorem feed_runs (evs : List SockEvent) (hev : Chunked evs) (hwf : ∀ m ∈ ms, WellFormed m)
    (hw : r.Waiting ms) (hstream : r.buf ++ received evs <+: ms.flatten)
    (htail : r.buf ++ received evs =
      (ms.take (complete ms (r.buf ++ received evs).length)).flatten ++ tail)
    (hd : Runs app r.dp (ms.take (complete ms (r.buf ++ received evs).length)) handed res)
    (hfuel : 2 * ms.length + 3 ≤ fuel) :
    ∃ r', feed app fuel r evs = some r' ∧ r'.handed = r.handed ++ handed ∧ r'.Ended tail res := by
  induction evs generalizing r ms handed with
  | nil =>
    have hk : complete ms (r.buf ++ received []).length = 0 := by
      simpa [received] using complete_of_part hw.part
    rw [hk, take_zero] at hd htail
    cases hd
    exact ⟨r, rfl, by simp, hw.phase, by simpa [received] using htail, rfl, hw.req⟩
  | cons ev evs ih =>
    have hev' : Chunked evs := fun x hx => hev x (by simp [hx])
    rcases hev ev (by simp) with rfl | ⟨bs, rfl, hne⟩
    · rw [feed_timeout hw.phase hd.isOpen (by omega)]
      exact ih hev' hwf hw hstream htail hd hfuel
    · have hassoc : r.buf ++ received (.data bs :: evs) = (r.buf ++ bs) ++ received evs := by
        simp [received]
      rw [hassoc] at hstream hd htail
      obtain ⟨k, part, hbuf, hpart, hrest, hcount⟩ := split_chunk ms _ _ hstream
      rw [hcount, List.take_add] at hd htail
      rw [feed_data hw.phase hd.isOpen hne]
      have hsettle {handed : List Bytes} {res : PyResult σ}
          (hd : Runs app r.dp (ms.take k) handed res) := settle_runs (n := fuel)
        (r := { r with buf := r.buf ++ bs, phase := .frame }) rfl hbuf
        (fun m hm => hwf m (mem_of_mem_take hm)) (fun m hm => hwf m (mem_of_mem_drop hm)) hpart
        (hw.req.append bs) hd (by simp; omega)
      rcases hd.of_append with ⟨dp₁, handed', hd₁, hd₂, rfl⟩ | ⟨e, rfl, hd₁⟩
      · obtain ⟨r₁, hs, hh, hp, rfl, rfl, hreq⟩ := hsettle hd₁
        obtain ⟨r', hf, hh', hended⟩ := ih hev' (r := r₁) (fun m hm => hwf m (mem_of_mem_drop hm))
          ⟨hp, hreq, hpart⟩ hrest (by simpa [hbuf] using htail) hd₂ (by simp; omega)
        refine ⟨r', by rw [hs, Option.bind_some, hf], ?_, hended⟩
        rw [hh', hh, append_assoc]
      · obtain ⟨r₁, hs, hh, hp⟩ := hsettle hd₁
        replace hp : r₁.phase = .raised e := hp
        refine ⟨r₁, ?_, hh, hp⟩
        rw [hs, Option.bind_some]
        cases evs <;> simp [feed, hp]

/-- More fuel does not change where the inner loop comes to rest. -/
theorem settle_mono {n m : Nat} {r r' : Recv σ} (hnm : n ≤ m) (h : settle app n r = some r') :
    settle app m r = some r' := by
  induction n generalizing m r with
  | zero => simp [settle] at h
  | succ n ih =>
    obtain ⟨m, rfl⟩ : ∃ k, m = k + 1 := ⟨m - 1, by omega⟩
    have hnm : n ≤ m := by omega
    rw [settle] at h ⊢
    split at h
    · exact ih hnm h
    · rename_i hd _
      cases hb : busyStep app hd r with
      | none => simp [hb] at h
      | some r₁ =>
        rw [hb, Option.bind_some] at h
        exact ih hnm h
    · exact h

theorem feed_mono {n m : Nat} {r r' : Recv σ} (hnm : n ≤ m) (h : feed app n r evs = some r') :
    feed app m r evs = some r' := by
  induction evs generalizing r with
  | nil => exact h
  | cons ev evs ih =>
    rw [feed] at h ⊢
    split at h
    · cases hs : settle app n (r.onRecv app ev) with
      | none => simp [hs] at h
      | some r₁ =>
        rw [hs, Option.bind_some] at h
        rw [settle_mono hnm hs, Option.bind_some]
        exact ih h
    · exact h

end Recv

/-! ## Messages are handed over exactly once, in order -/

/-- The loop waits for more, has handed over exactly the messages that have arrived, and holds the
bytes behind them. -/
def HandedExactly (msgs : List Bytes) (evs : List SockEvent) (r : Recv σ) : Prop :=
  r.phase = .recv ∧ r.handed = msgs.take (complete msgs (received evs).length) ∧
    received evs = r.handed.flatten ++ r.buf

/-- For every chunking of a stream of well-formed messages: as long as delivering a message
returns, the loop hands over exactly the complete messages and keeps the rest; when a message
makes `ofproto_parser.msg` or a handler raise, it is the last one handed over. Chunks may even be
longer than the loop asked for. -/
theorem recvLoop_hands_messages (app : App σ μ) (dp : σ) (msgs : List Bytes)
    (hwf : ∀ m ∈ msgs, WellFormed m) (evs : List SockEvent) (hev : Chunked evs)
    (hstream : received evs <+: msgs.flatten) (fuel : Nat) (hfuel : 2 * msgs.length + 3 ≤ fuel) :
    (∀ dp', Delivers app dp (msgs.take (complete msgs (received evs).length)) dp' →
      ∃ r, Recv.feed app fuel (.start dp) evs = some r ∧ HandedExactly msgs evs r ∧ r.dp = dp') ∧
    (∀ j m dp' e, j < complete msgs (received evs).length → msgs[j]? = some m →
      Delivers app dp (msgs.take j) dp' →
      Recv.deliver app dp' (headerOf m) m = some (.error e) →
      ∃ r, Recv.feed app fuel (.start dp) evs = some r ∧ r.phase = .raised e ∧
        r.handed = msgs.take (j + 1)) := by
  have hwait : ∀ ms : List Bytes, (∀ m ∈ ms, WellFormed m) → (Recv.start dp).Waiting ms := by
    intro ms h
    refine ⟨rfl, .inl rfl, ?_⟩
    cases ms with
    | nil => rfl
    | cons m ms =>
      have h8 : 8 ≤ m.length := (h m (by simp)).1
      refine ⟨List.nil_prefix, ?_⟩
      change 0 < m.length
      omega
  obtain ⟨tail, htail, -⟩ := split_front msgs _ hstream
  have hfeed {handed : List Bytes} {res : PyResult σ}
      (hruns : Runs app dp (msgs.take (complete msgs (received evs).length)) handed res) :=
    Recv.feed_runs (r := .start dp) evs hev hwf (hwait msgs hwf) hstream htail hruns hfuel
  constructor
  · intro dp' hd
    have hruns := hd.runs (.nil hd.isOpen_end)
    rw [append_nil] at hruns
    obtain ⟨r, hf, hh, hp, hb, hdp, -⟩ := hfeed hruns
    exact ⟨r, hf, ⟨hp, hh, by rw [hh, hb]; exact htail⟩, hdp⟩
  · intro j m dp' e hj hm hd he
    have hsplit : msgs.take (complete msgs (received evs).length) =
        msgs.take j ++ m :: (msgs.take (complete msgs (received evs).length)).drop (j + 1) := by
      conv_lhs => rw [← take_append_drop j (msgs.take _), take_take, Nat.min_eq_left hj.le]
      rw [drop_eq_getElem?_toList_append, getElem?_take_of_lt hj, hm]
      rfl
    have hruns : Runs app dp (msgs.take (complete msgs (received evs).length)) (msgs.take j ++ [m])
        (.error e) := by
      rw [hsplit]
      exact hd.runs (.raise hd.isOpen_end he)
    obtain ⟨r, hf, hh, hp⟩ := hfeed hruns
    exact ⟨r, hf, hp, by rw [hh, take_add_one, hm]; rfl⟩

/-- An application whose parsers accept everything and whose handlers do nothing, as for echo
and barrier replies. -/
def quietApp : App Unit Unit where
  parsers _ _ _ := some (.ok ())
  dispatch dp _ := some (.ok dp)
  closeRequested _ := false

/-- The barrier reply of OpenFlow 1.3 with transaction id 7. -/
def barrierReply : Bytes := [4, 21, 0, 8, 0, 0, 0, 7]

/-- An echo reply with four bytes of data. -/
def echoReply (xid : UInt8) : Bytes := [4, 3, 0, 12, 0, 0, 0, xid, 1, 2, 3, 4]

/-- The first chunk ends within the data of the first message, and the next one reads into the
header of the second. -/
theorem recvLoop_hands_echoReplies :
    ∃ r, Recv.feed quietApp 7 (.start ())
        [.data ((echoReply 7).take 10), .timeout,
          .data ((echoReply 7).drop 10 ++ (echoReply 8).take 5),
          .data ((echoReply 8).drop 5)] = some r ∧
      HandedExactly [echoReply 7, echoReply 8] [.data ((echoReply 7).take 10), .timeout,
        .data ((echoReply 7).drop 10 ++ (echoReply 8).take 5), .data ((echoReply 8).drop 5)] r ∧
      r.dp = () :=
  (recvLoop_hands_messages quietApp () [echoReply 7, echoReply 8] (by decide) _
    (by simp [Chunked, echoReply]) (by decide) 7 (by decide)).1 ()
      (.cons rfl rfl (.cons rfl rfl (.nil rfl)))

/-- A message of an unregistered version ends the loop: the barrier reply that follows it on the
stream is never handed over. -/
theorem recvLoop_unknown_version :
    (∀ m ∈ [[0x77, 0, 0, 8, 0, 0, 0, 0], barrierReply], WellFormed m) ∧
    Chunked [.data [0x77, 0, 0, 8, 0, 0, 0, 0], .data barrierReply] ∧
    ∀ fuel r, Recv.feed quietApp fuel (.start ())
        [.data [0x77, 0, 0, 8, 0, 0, 0, 0], .data barrierReply] = some r →
      ¬HandedExactly [[0x77, 0, 0, 8, 0, 0, 0, 0], barrierReply]
        [.data [0x77, 0, 0, 8, 0, 0, 0, 0], .data barrierReply] r := by
  refine ⟨by decide, by simp [Chunked, barrierReply], ?_⟩
  intro fuel r hf hexact
  have h5 : Recv.feed quietApp 5 (.start ())
      [.data [0x77, 0, 0, 8, 0, 0, 0, 0], .data barrierReply] =
      some ⟨[0x77, 0, 0, 8, 0, 0, 0, 0], 8, 0, (), [[0x77, 0, 0, 8, 0, 0, 0, 0]],
        .raised ofpUnknownVersion⟩ := rfl
  have h1 := Recv.feed_mono (Nat.le_max_left fuel 5) hf
  have h2 := Recv.feed_mono (Nat.le_max_right fuel 5) h5
  rw [h1, Option.some.injEq] at h2
  have hp := hexact.1
  rw [h2] at hp
  exact absurd hp (by decide)

/-! ## Progress of the inner loop -/

namespace Recv

/-- The states of a connection, for any bytes the peer sends. -/
inductive Reachable (app : App σ μ) (dp : σ) : Recv σ → Prop where
  | start : Reachable app dp (.start dp)
  | recv {r : Recv σ} (ev : SockEvent) (hr : Reachable app dp r) (hp : r.phase = .recv) :
      Reachable app dp (r.onRecv app ev)
  | frame {r : Recv σ} (hr : Reachable app dp r) (hp : r.phase = .frame) :
      Reachable app dp r.frameStep
  | busy {r r' : Recv σ} {h : Header} (hr : Reachable app dp r) (hp : r.phase = .busy h)
      (hb : busyStep app h r = some r') : Reachable app dp r'

theorem Reachable.reqOk {dp : σ} (h : Reachable app dp r) : r.ReqOk := by
  induction h with
  | start => exact .inl rfl
  | @recv r ev _ _ ih =>
    cases ev with
    | timeout => simp only [onRecv]; split <;> exact ih
    | error => exact ih
    | data bs =>
      simp only [onRecv]
      split
      · exact ih
      · exact ih.append bs
  | @frame r _ _ ih =>
    unfold frameStep
    split
    · by_cases h8 : ofpHeaderSize ≤ r.buf.length
      · rw [header_eq h8]
        simp only
        split
        · exact .inr ⟨h8, rfl⟩
        · exact .inr ⟨h8, rfl⟩
      · rw [header_short (by omega)]
        exact ih
    · exact ih
  | @busy r r' h _ _ hb ih =>
    unfold busyStep at hb
    split at hb
    · simp at hb
    · cases hb; exact ih
    · cases hb; exact .inl rfl

/-- The test of the inner loop holds: a round begins. -/
def InLoop (r : Recv σ) : Prop := r.phase = .frame ∧ r.requiredLen ≤ r.buf.length

/-- One round of the inner loop; `none` when the parser or a handler does not return. -/
def iteration (app : App σ μ) (r : Recv σ) : Option (Recv σ) :=
  match r.frameStep.phase with
  | .busy h => busyStep app h r.frameStep
  | _ => some r.frameStep

/-- The round leaves the loop or removes at least one byte. -/
def Progresses (app : App σ μ) (r : Recv σ) : Prop :=
  ∃ r', iteration app r = some r' ∧ (r'.phase ≠ .frame ∨ r'.buf.length < r.buf.length)

/-- The message at the front of the buffer, if complete, makes the parser dispatch or a handler
raise, or it is delivered and its length field is not zero. -/
def LengthOk (app : App σ μ) (r : Recv σ) : Prop :=
  (headerOf r.buf).msgLen ≤ r.buf.length →
    (∃ e, deliver app r.dp (headerOf r.buf) (r.buf.take (headerOf r.buf).msgLen) =
      some (.error e)) ∨
    ((headerOf r.buf).msgLen ≠ 0 ∧
      deliver app r.dp (headerOf r.buf) (r.buf.take (headerOf r.buf).msgLen) ≠ none)

theorem InLoop.header_le (hin : r.InLoop) (hreq : r.ReqOk) : ofpHeaderSize ≤ r.buf.length := by
  rcases hreq with h | ⟨h, _⟩
  · rw [← h]; exact hin.2
  · exact h

theorem frameStep_inLoop (hin : r.InLoop) (h8 : ofpHeaderSize ≤ r.buf.length) :
    r.frameStep = if r.buf.length < (headerOf r.buf).msgLen then
        { r with requiredLen := (headerOf r.buf).msgLen, phase := .recv }
      else
        { r with
          requiredLen := (headerOf r.buf).msgLen
          handed := r.handed ++ [r.buf.take (headerOf r.buf).msgLen]
          phase := .busy (headerOf r.buf) } := by
  rw [frameStep, if_pos hin.2, header_eq h8]

theorem progresses_iff (hin : r.InLoop) (hreq : r.ReqOk) : Progresses app r ↔ LengthOk app r := by
  have hstep := frameStep_inLoop hin (hin.header_le hreq)
  rw [Progresses, LengthOk, iteration, hstep]
  by_cases hlt : r.buf.length < (headerOf r.buf).msgLen
  · simp only [if_pos hlt]
    exact ⟨fun _ hle => by omega, fun _ => ⟨_, rfl, .inl (by simp)⟩⟩
  · simp only [if_neg hlt, busyStep]
    cases hd : deliver app r.dp (headerOf r.buf) (r.buf.take (headerOf r.buf).msgLen) with
    | none => simp; omega
    | some res =>
      cases res with
      | error e => simp
      | ok dp' =>
        simp only [Option.some.injEq, exists_eq_left', ne_eq, not_true_eq_false, false_or,
          length_drop, reduceCtorEq, not_false_eq_true, and_true, exists_false]
        omega

/-- The states at the head of the inner loop that are reached from `r` without leaving it. -/
inductive Rounds (app : App σ μ) : Recv σ → Recv σ → Prop where
  | here (r : Recv σ) : Rounds app r r
  | next {r r₁ r₂ : Recv σ} (hi : iteration app r = some r₁) (hp : r₁.phase = .frame)
      (hr : Rounds app r₁ r₂) : Rounds app r r₂

theorem phase_frameStep_ne (r : Recv σ) : r.frameStep.phase ≠ .frame := by
  unfold frameStep
  split
  · split
    · simp
    · split <;> simp
  · simp

theorem settle_iteration (hp : r.phase = .frame) (n : Nat) :
    settle app (n + 3) r = (iteration app r).bind (settle app (n + 1)) := by
  rw [settle, hp, iteration]
  rw [settle]
  cases hf : r.frameStep.phase with
  | frame => exact (r.phase_frameStep_ne hf).elim
  | busy h => rfl
  | recv | closed | raised => simp [settle, hf]

/-- After a round the loop is at its head again, for the header of the next message, or at rest. -/
theorem of_iteration {r' : Recv σ} (h : iteration app r = some r') :
    r'.phase = .frame ∧ r'.requiredLen = ofpHeaderSize ∨ ∀ n, settle app (n + 1) r' = some r' := by
  unfold iteration at h
  split at h
  · unfold busyStep at h
    split at h <;> cases h
    · exact .inr fun n => rfl
    · exact .inl ⟨rfl, rfl⟩
  · rename_i hbusy
    cases h
    refine .inr fun n => ?_
    rw [settle]
    cases hf : r.frameStep.phase with
    | frame => exact (r.phase_frameStep_ne hf).elim
    | busy h => exact (hbusy h hf).elim
    | recv | closed | raised => rfl

/-- If every round meets `LengthOk`, the inner loop comes to rest: the buffer is finite. -/
theorem settle_of_lengthOk (hp : r.phase = .frame) (hreq : r.ReqOk)
    (hok : ∀ r', Rounds app r r' → r'.InLoop → LengthOk app r') (hn : 2 * r.buf.length + 3 ≤ n) :
    ∃ r', settle app n r = some r' := by
  induction hk : r.buf.length using Nat.strongRecOn generalizing r n with
  | ind k ih =>
    obtain ⟨n, rfl⟩ : ∃ i, n = i + 3 := ⟨n - 3, by omega⟩
    rw [settle_iteration hp]
    by_cases htest : r.requiredLen ≤ r.buf.length
    · have hin : r.InLoop := ⟨hp, htest⟩
      obtain ⟨r₁, hiter, hprogress⟩ := (progresses_iff hin hreq).2 (hok r (.here r) hin)
      rw [hiter, Option.bind_some]
      rcases of_iteration hiter with ⟨hp₁, hreq₁⟩ | hrest
      · -- a message that is delivered is not empty, so the buffer shrinks
        have hshort := hprogress.resolve_left (not_not.2 hp₁)
        exact ih _ (hk ▸ hshort) hp₁ (.inl hreq₁) (fun r' hr' => hok r' (.next hiter hp₁ hr'))
          (by omega) rfl
      · exact ⟨r₁, hrest n⟩
    · have hiter : iteration app r = some { r with phase := .recv } := by
        rw [iteration, frameStep, if_neg htest]
      rw [hiter]
      exact ⟨_, rfl⟩

end Recv

/-- A round of the inner loop leaves the loop or removes a byte exactly when the length field of
the message at the front is not zero or delivering that message raises; and a loop all of whose
rounds are like that comes to rest. -/
theorem recvLoop_progress_iff {app : App σ μ} {dp : σ} {r : Recv σ}
    (hr : Recv.Reachable app dp r) (hin : r.InLoop) :
    (Recv.Progresses app r ↔ Recv.LengthOk app r) ∧
    ((∀ r', Recv.Rounds app r r' → r'.InLoop → Recv.LengthOk app r') →
      ∃ r', Recv.settle app (2 * r.buf.length + 3) r = some r') :=
  ⟨Recv.progresses_iff hin hr.reqOk, fun hok => Recv.settle_of_lengthOk hin.1 hr.reqOk hok le_rfl⟩

theorem recvLoop_progress_barrierReply :
    Recv.Progresses quietApp ⟨barrierReply, 8, 0, (), [], .frame⟩ :=
  (recvLoop_progress_iff (show Recv.Reachable quietApp () _ from
    .recv (.data barrierReply) .start rfl) ⟨rfl, by decide⟩).1.2
    (fun _ => .inr ⟨by decide, by decide⟩)

/-- A header whose length field is zero. -/
def zeroLength : Bytes := [4, 21, 0, 0, 0, 0, 0, 7]

theorem iteration_zeroLength (count : Nat) (handed : List Bytes) :
    ∃ count', Recv.iteration quietApp ⟨zeroLength, 8, count, (), handed, .frame⟩ =
      some ⟨zeroLength, 8, count', (), handed ++ [[]], .frame⟩ := by
  have hlen : (8 : Nat) ≤ zeroLength.length := by decide
  have hstep :=
    Recv.frameStep_inLoop (r := ⟨zeroLength, 8, count, (), handed, .frame⟩) ⟨rfl, hlen⟩ hlen
  refine ⟨if count + 1 > 2048 then 0 else count + 1, ?_⟩
  rw [Recv.iteration, hstep]
  rfl

theorem settle_zeroLength (n count : Nat) (handed : List Bytes) :
    Recv.settle quietApp n ⟨zeroLength, 8, count, (), handed, .frame⟩ = none := by
  have hodd : ∀ k count handed,
      Recv.settle quietApp (2 * k + 1) ⟨zeroLength, 8, count, (), handed, .frame⟩ = none := by
    intro k
    induction k with
    | zero => intro count handed; rfl
    | succ k ih =>
      intro count handed
      obtain ⟨count', hi⟩ := iteration_zeroLength count handed
      rw [show 2 * (k + 1) + 1 = 2 * k + 3 by ring, Recv.settle_iteration rfl, hi]
      exact ih _ _
  rw [Option.eq_none_iff_forall_ne_some]
  intro r hr
  have hmore := Recv.settle_mono (show n ≤ 2 * n + 1 by omega) hr
  rw [hodd] at hmore
  cases hmore

/-- A peer that sends a header with length zero makes the inner loop spin: the round does not
leave the loop, removes nothing, and no number of rounds ends it. -/
theorem recvLoop_zero_length_spins :
    Recv.Reachable quietApp () ⟨zeroLength, 8, 0, (), [], .frame⟩ ∧
    Recv.InLoop (⟨zeroLength, 8, 0, (), [], .frame⟩ : Recv Unit) ∧
    ¬Recv.Progresses quietApp ⟨zeroLength, 8, 0, (), [], .frame⟩ ∧
    ∀ n, Recv.settle quietApp n ⟨zeroLength, 8, 0, (), [], .frame⟩ = none := by
  refine ⟨.recv (.data zeroLength) .start rfl, ⟨rfl, by decide⟩, ?_,
    fun n => settle_zeroLength n 0 []⟩
  rintro ⟨r', hi, hprog⟩
  obtain ⟨count', hsame⟩ := iteration_zeroLength 0 []
  rw [hsame, Option.some.injEq] at hi
  subst hi
  exact absurd hprog (by simp)

end BebaCtrl
