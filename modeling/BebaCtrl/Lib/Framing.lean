import BebaCtrl.Lib.Bytes

/-!
# Streams of messages

A stream carries messages one after another and delivers its bytes in pieces. `complete msgs n`
counts the messages that lie wholly within the first `n` bytes; `split_front` cuts a delivered
prefix into those messages and a rest that is a proper part of the next one.
-/

namespace BebaCtrl

open List

def complete : List Bytes → Nat → Nat
  | [], _ => 0
  | m :: ms, n => if m.length ≤ n then complete ms (n - m.length) + 1 else 0

/-- `tail` is what has arrived of the next message of `ms`, if anything has. -/
def PartOfNext (ms : List Bytes) (tail : Bytes) : Prop :=
  match ms with
  | [] => tail = []
  | m :: _ => tail <+: m ∧ tail.length < m.length

theorem complete_of_part {ms : List Bytes} {tail : Bytes} (h : PartOfNext ms tail) :
    complete ms tail.length = 0 := by
  cases ms with
  | nil => rfl
  | cons m ms => rw [complete, if_neg (by have := h.2; omega)]

theorem split_front (msgs : List Bytes) (stream : Bytes) (h : stream <+: msgs.flatten) :
    ∃ tail, stream = (msgs.take (complete msgs stream.length)).flatten ++ tail ∧
      PartOfNext (msgs.drop (complete msgs stream.length)) tail := by
  induction msgs generalizing stream with
  | nil =>
    have hnil : stream = [] := by simpa using h
    exact ⟨[], by simp [hnil, complete], by simp [PartOfNext, complete]⟩
  | cons m ms ih =>
    by_cases hle : m.length ≤ stream.length
    · -- the first message has arrived: cut it off and go on with the rest
      obtain ⟨rest, rfl⟩ := prefix_of_prefix_length_le (prefix_append m _) h hle
      have hrest : rest <+: ms.flatten := (prefix_append_right_inj m).1 h
      obtain ⟨tail, htail, hpart⟩ := ih rest hrest
      have hk : complete (m :: ms) (m ++ rest).length = complete ms rest.length + 1 := by
        simp [complete]
      refine ⟨tail, ?_, ?_⟩
      · rw [hk, take_succ_cons, flatten_cons, append_assoc, ← htail]
      · rwa [hk, drop_succ_cons]
    · have hk : complete (m :: ms) stream.length = 0 := by rw [complete, if_neg hle]
      refine ⟨stream, by simp [hk], ?_⟩
      rw [hk, drop_zero]
      exact ⟨prefix_of_prefix_length_le h (prefix_append m _) (by omega), by omega⟩

/-- Counting may stop at a message boundary and go on from there. -/
theorem complete_add (msgs : List Bytes) (n k : Nat) :
    complete msgs (n + k) = complete msgs n +
      complete (msgs.drop (complete msgs n))
        (n - (msgs.take (complete msgs n)).flatten.length + k) := by
  induction msgs generalizing n with
  | nil => simp [complete]
  | cons m ms ih =>
    by_cases hle : m.length ≤ n
    · have hn : n + k - m.length = n - m.length + k := by omega
      simp only [complete, if_pos hle, if_pos (Nat.le_add_right_of_le hle : m.length ≤ n + k)]
      rw [hn, ih, take_succ_cons, flatten_cons, length_append, drop_succ_cons, Nat.sub_add_eq]
      omega
    · simp [complete, if_neg hle]

/-- The first part `a` of a delivered prefix, cut into messages and a rest, leaves a stream of the
remaining messages that starts with that rest. -/
theorem split_chunk (msgs : List Bytes) (a b : Bytes) (h : a ++ b <+: msgs.flatten) :
    ∃ k tail, a = (msgs.take k).flatten ++ tail ∧
      PartOfNext (msgs.drop k) tail ∧ tail ++ b <+: (msgs.drop k).flatten ∧
      complete msgs (a ++ b).length = k + complete (msgs.drop k) (tail ++ b).length := by
  obtain ⟨tail, htail, hpart⟩ := split_front msgs a ((prefix_append a b).trans h)
  refine ⟨complete msgs a.length, tail, htail, hpart, ?_, ?_⟩
  · have hall : msgs.flatten = (msgs.take (complete msgs a.length)).flatten ++
        (msgs.drop (complete msgs a.length)).flatten := by
      rw [← flatten_append, take_append_drop]
    rw [hall] at h
    generalize complete msgs a.length = k at *
    rw [htail, append_assoc] at h
    exact (prefix_append_right_inj _).1 h
  · have hlen : a.length - (msgs.take (complete msgs a.length)).flatten.length = tail.length := by
      have := congrArg List.length htail
      rw [length_append] at this
      omega
    rw [length_append, complete_add, hlen, length_append]

end BebaCtrl
