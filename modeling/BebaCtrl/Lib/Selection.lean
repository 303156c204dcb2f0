import Mathlib.Data.Set.Finite.Lemmas
import Mathlib.Data.Set.Finite.List

/-!
# Selection by a left fold

`choice` goes through a list with a current element and replaces it by each later element that beats
it. If beating is not transitive, the outcome can be beaten by an element that came too early, and
it depends on the order of the list.

A set is `Dominant` when beating does not lead out of it and one of its members beats everything
outside; then every order ends in it. The second half is about a comparison whose first criterion is
a preference that some elements lack: `sound_iff` says for which lists the fold is sound.
-/

namespace BebaCtrl.Selection

open List Option

variable {α : Type} {xs : List α}

section Fold

variable (beats : α → α → Prop) [DecidableRel beats]

/-- Keep the current element unless the next one beats it. -/
def select : α → List α → α
  | c, [] => c
  | c, x :: xs => select (if beats x c then x else c) xs

def choice : List α → Option α
  | [] => none
  | x :: xs => some (select beats x xs)

variable {beats}

theorem select_append (c : α) (xs ys : List α) :
    select beats c (xs ++ ys) = select beats (select beats c xs) ys := by
  induction xs generalizing c with
  | nil => rfl
  | cons x xs ih => exact ih _

theorem select_eq_self {c : α} (h : ∀ x ∈ xs, ¬beats x c) : select beats c xs = c := by
  induction xs with
  | nil => rfl
  | cons x xs ih =>
    rw [select, if_neg (h x (by simp))]
    exact ih fun y hy => h y (mem_cons_of_mem x hy)

theorem select_mem (c : α) (xs : List α) : select beats c xs ∈ c :: xs := by
  induction xs generalizing c with
  | nil => simp [select]
  | cons x xs ih =>
    by_cases hx : beats x c
    · rw [select, if_pos hx]
      exact mem_cons_of_mem c (ih x)
    · rw [select, if_neg hx]
      grind

variable {D : α → Prop}

/-- Once the current element is in an absorbing set, it stays there. -/
theorem select_of_absorbing {c : α} (habs : ∀ x ∈ xs, ∀ y ∈ c :: xs, D y → beats x y → D x)
    (hc : D c) : D (select beats c xs) := by
  induction xs generalizing c with
  | nil => exact hc
  | cons x xs ih =>
    apply ih
    · grind
    · split
      · rename_i hx
        exact habs x (by simp) c (by simp) hc hx
      · exact hc

theorem select_of_leader {c d : α} (habs : ∀ x ∈ xs, ∀ y ∈ c :: xs, D y → beats x y → D x)
    (hd : d ∈ c :: xs) (hD : D d) (hbeats : ∀ x ∈ c :: xs, ¬D x → beats d x) :
    D (select beats c xs) := by
  rcases mem_cons.1 hd with rfl | hd
  · exact select_of_absorbing habs hD
  · obtain ⟨as, bs, rfl⟩ := append_of_mem hd
    -- the current element when the leader arrives
    have hmem : select beats c as ∈ c :: as := select_mem c as
    rw [select_append, select]
    apply select_of_absorbing
    · grind
    · split
      · exact hD
      · rename_i hnot
        by_contra hcur
        exact hnot (hbeats _ (by grind) hcur)

/-- Beating does not lead out of `D`, and one member of `D` beats everything outside. -/
def Dominant (beats : α → α → Prop) (xs : List α) (D : α → Prop) : Prop :=
  (∀ x ∈ xs, ∀ y ∈ xs, D y → ¬beats x y) ∧ ∃ d ∈ xs, D d ∧ ∀ x ∈ xs, ¬D x → beats d x

/-- The chosen element is beaten by none, and each order of the list chooses it or one tied with
it. -/
def Sound (beats : α → α → Prop) [DecidableRel beats] (xs : List α) : Prop :=
  ∃ r, choice beats xs = some r ∧ (∀ x ∈ xs, ¬beats x r) ∧
    ∀ ys, ys.Perm xs → ∃ r', choice beats ys = some r' ∧ ¬beats r r' ∧ ¬beats r' r

theorem choice_of_dominant {xs ys : List α} (h : Dominant beats xs D) (hperm : ys.Perm xs) :
    ∃ r ∈ xs, choice beats ys = some r ∧ D r := by
  obtain ⟨hclosed, d, hd, hD, hbeats⟩ := h
  have hmem : ∀ x, x ∈ ys ↔ x ∈ xs := fun x => hperm.mem_iff
  cases ys with
  | nil => simp [← hmem] at hd
  | cons c cs =>
    refine ⟨select beats c cs, (hmem _).1 (select_mem c cs), rfl, ?_⟩
    have habs : ∀ x ∈ cs, ∀ y ∈ c :: cs, D y → beats x y → D x := by
      intro x hx y hy hDy hxy
      exact absurd hxy (hclosed x ((hmem x).1 (mem_cons_of_mem c hx)) y ((hmem y).1 hy) hDy)
    exact select_of_leader habs ((hmem d).2 hd) hD fun x hx => hbeats x ((hmem x).1 hx)

theorem sound_of_dominant (h : Dominant beats xs D) : Sound beats xs := by
  obtain ⟨r, hr, hchoice, hDr⟩ := choice_of_dominant h (List.Perm.refl xs)
  refine ⟨r, hchoice, fun x hx => h.1 x hx r hr hDr, ?_⟩
  intro ys hperm
  obtain ⟨r', hr', hchoice', hDr'⟩ := choice_of_dominant h hperm
  exact ⟨r', hchoice', h.1 r hr r' hr' hDr', h.1 r' hr' r hr hDr⟩

end Fold

/-! ## A preference that some elements lack -/

section Preference

variable {κ : Type} [LinearOrder κ] (pref : α → Option Nat) (rank : α → κ)

/-- The higher preference wins when both elements have one, and otherwise the lower rank. -/
def Beats (a b : α) : Prop :=
  match pref a, pref b with
  | some x, some y => y < x ∨ (x = y ∧ rank a < rank b)
  | _, _ => rank a < rank b

instance : DecidableRel (Beats pref rank) := fun a b => by
  unfold Beats
  split <;> infer_instance

/-- No element of the list has a higher preference. -/
def Top (xs : List α) (a : α) : Prop :=
  ∃ v, pref a = some v ∧ ∀ y ∈ xs, ∀ w, pref y = some w → w ≤ v

/-- The best element `n` without preference is at least as good in rank as all elements of the
highest preference, and some element `m` of a lower preference is as good as `n` and better than
all of those. -/
def Torn (xs : List α) : Prop :=
  ∃ n ∈ xs, ∃ m ∈ xs, pref n = none ∧ (pref m).isSome ∧
    (∀ y ∈ xs, pref y = none → rank n ≤ rank y) ∧ rank m ≤ rank n ∧
    ∀ x ∈ xs, Top pref xs x → rank n ≤ rank x ∧ rank m < rank x

variable {pref rank} {a b : α}

theorem beats_iff_rank_left (h : pref a = none) : Beats pref rank a b ↔ rank a < rank b := by
  simp [Beats, h]

theorem beats_iff_rank_right (h : pref b = none) : Beats pref rank a b ↔ rank a < rank b := by
  unfold Beats
  rw [h]
  cases pref a <;> simp

theorem beats_some {x y : Nat} (ha : pref a = some x) (hb : pref b = some y) :
    Beats pref rank a b ↔ y < x ∨ (x = y ∧ rank a < rank b) := by
  simp [Beats, ha, hb]

theorem Beats.asymm (h : Beats pref rank a b) : ¬Beats pref rank b a := by
  cases ha : pref a with
  | none =>
    rw [beats_iff_rank_left ha] at h
    rw [beats_iff_rank_right ha]
    exact lt_asymm h
  | some x =>
    cases hb : pref b with
    | none =>
      rw [beats_iff_rank_right hb] at h
      rw [beats_iff_rank_left hb]
      exact lt_asymm h
    | some y =>
      rw [beats_some ha hb] at h
      rw [beats_some hb ha]
      rintro (h' | ⟨rfl, h'⟩)
      · rcases h with h | ⟨rfl, -⟩ <;> omega
      · rcases h with h | ⟨-, h⟩
        · omega
        · exact lt_asymm h h'

theorem exists_min_rank (rank : α → κ) {p : α → Prop} (h : ∃ x ∈ xs, p x) :
    ∃ m ∈ xs, p m ∧ ∀ y ∈ xs, p y → rank m ≤ rank y := by
  have hfin : {x | x ∈ xs ∧ p x}.Finite := xs.finite_toSet.subset fun x hx => hx.1
  obtain ⟨m, ⟨hm, hp⟩, hmin⟩ := Set.exists_min_image {x | x ∈ xs ∧ p x} rank hfin h
  exact ⟨m, hm, hp, fun y hy hpy => hmin y ⟨hy, hpy⟩⟩

theorem exists_top (h : ∃ x ∈ xs, (pref x).isSome) : ∃ x ∈ xs, Top pref xs x := by
  obtain ⟨t, ht, hsome, hmax⟩ := exists_min_rank (fun x => OrderDual.toDual ((pref x).getD 0)) h
  obtain ⟨v, hv⟩ := isSome_iff_exists.1 hsome
  refine ⟨t, ht, v, hv, fun y hy w hw => ?_⟩
  simpa [hv, hw] using hmax y hy (by simp [hw])

variable {t x : α}

/-- Among the elements that have a preference, one of the highest is beaten by better ones of its
kind only. -/
theorem Top.beats_right_iff (ht : Top pref xs t) (htm : t ∈ xs) (hx : x ∈ xs)
    (hsome : (pref x).isSome) : Beats pref rank x t ↔ Top pref xs x ∧ rank x < rank t := by
  obtain ⟨v, hv, hmax⟩ := ht
  obtain ⟨w, hw⟩ := isSome_iff_exists.1 hsome
  have hle := hmax x hx w hw
  rw [beats_some hw hv]
  grind [Top]

theorem Top.beats_left_iff (ht : Top pref xs t) (htm : t ∈ xs) (hx : x ∈ xs)
    (hsome : (pref x).isSome) : Beats pref rank t x ↔ (Top pref xs x → rank t < rank x) := by
  obtain ⟨v, hv, hmax⟩ := ht
  obtain ⟨w, hw⟩ := isSome_iff_exists.1 hsome
  have hle := hmax x hx w hw
  rw [beats_some hv hw]
  grind [Top]

theorem none_or_isSome (pref : α → Option Nat) (x : α) : pref x = none ∨ (pref x).isSome := by
  cases pref x <;> simp

/-- The unbeaten elements are dominant, if one of them beats all others. -/
theorem dominant_of_unbeaten (htm : t ∈ xs) (h : ∀ y ∈ xs, ¬Beats pref rank y t)
    (hrest : ∀ x ∈ xs, ¬Beats pref rank t x → ∀ y ∈ xs, ¬Beats pref rank y x) :
    Dominant (Beats pref rank) xs fun x => ∀ y ∈ xs, ¬Beats pref rank y x :=
  ⟨fun x hx _ _ hy => hy x hx, t, htm, h, fun x hx hnot => not_not.1 fun hb => hnot (hrest x hx hb)⟩

/-- The highest preference leads: none without preference is better than its best elements, or as
good without being the best of all. -/
theorem dominant_top (htm : t ∈ xs) (ht : Top pref xs t)
    (hmin : ∀ y ∈ xs, Top pref xs y → rank t ≤ rank y)
    (hnone : ∀ y ∈ xs, pref y = none → rank t ≤ rank y)
    (hlevel : ∀ y ∈ xs, pref y = none → rank y ≤ rank t → ∀ z ∈ xs, rank y ≤ rank z) :
    Dominant (Beats pref rank) xs fun x => ∀ y ∈ xs, ¬Beats pref rank y x := by
  have hunbeaten : ∀ x ∈ xs, Top pref xs x → rank x ≤ rank t → ∀ y ∈ xs, ¬Beats pref rank y x := by
    intro x hx htop hxt y hy
    rcases none_or_isSome pref y with hy' | hy'
    · rw [beats_iff_rank_left hy']
      exact not_lt.2 (hxt.trans (hnone y hy hy'))
    · rw [htop.beats_right_iff hx hy hy']
      exact fun h => not_lt.2 (hxt.trans (hmin y hy h.1)) h.2
  refine dominant_of_unbeaten htm (hunbeaten t htm ht le_rfl) fun x hx hnot => ?_
  rcases none_or_isSome pref x with hx' | hx'
  · simp only [beats_iff_rank_right hx', not_lt] at hnot ⊢
    exact hlevel x hx hx' hnot
  · rw [ht.beats_left_iff htm hx hx', Classical.not_imp, not_lt] at hnot
    exact hunbeaten x hx hnot.1 hnot.2

/-- The best elements without preference are better in rank than all that have one. -/
theorem dominant_none {n : α} (hnm : n ∈ xs) (hn : pref n = none)
    (hmin : ∀ y ∈ xs, pref y = none → rank n ≤ rank y)
    (hsome : ∀ y ∈ xs, (pref y).isSome → rank n < rank y) :
    Dominant (Beats pref rank) xs fun x => ∀ y ∈ xs, ¬Beats pref rank y x := by
  have hle : ∀ y ∈ xs, rank n ≤ rank y := fun y hy =>
    (none_or_isSome pref y).elim (hmin y hy) fun h => (hsome y hy h).le
  refine dominant_of_unbeaten hnm ?_ fun x hx hnot => ?_
  · simpa only [beats_iff_rank_right hn, not_lt] using hle
  · rw [beats_iff_rank_left hn, not_lt] at hnot
    have hx' := (none_or_isSome pref x).resolve_right fun h => not_lt.2 hnot (hsome x hx h)
    simpa only [beats_iff_rank_right hx', not_lt] using fun y hy => hnot.trans (hle y hy)

theorem exists_dominant (hne : xs ≠ []) (h : ¬Torn pref rank xs) :
    ∃ D, Dominant (Beats pref rank) xs D := by
  by_cases hM : ∃ x ∈ xs, (pref x).isSome
  · obtain ⟨t, htm, ht, htmin⟩ := exists_min_rank rank (exists_top hM)
    -- an element `m` as in `Torn` is excluded
    have hnot : ∀ n ∈ xs, pref n = none → (∀ y ∈ xs, pref y = none → rank n ≤ rank y) →
        rank n ≤ rank t → ∀ m ∈ xs, (pref m).isSome → rank m ≤ rank n → ¬rank m < rank t := by
      intro n hnm hn hmin hnt m hm hsome hmn hmt
      exact h ⟨n, hnm, m, hm, hn, hsome, hmin, hmn, fun x hx hx' =>
        ⟨hnt.trans (htmin x hx hx'), hmt.trans_le (htmin x hx hx')⟩⟩
    by_cases hN : ∃ n ∈ xs, pref n = none ∧ rank n < rank t
    · obtain ⟨n, hnm, ⟨hn, hnt⟩, hmin⟩ := exists_min_rank rank hN
      have hmin' : ∀ y ∈ xs, pref y = none → rank n ≤ rank y := fun y hy hy' =>
        (lt_or_ge (rank y) (rank t)).elim (hmin y hy ⟨hy', ·⟩) hnt.le.trans
      refine ⟨_, dominant_none hnm hn hmin' fun y hy hy' => lt_of_not_ge fun hle => ?_⟩
      exact hnot n hnm hn hmin' hnt.le y hy hy' hle (hle.trans_lt hnt)
    · have hnone : ∀ y ∈ xs, pref y = none → rank t ≤ rank y := fun y hy hy' =>
        not_lt.1 fun hlt => hN ⟨y, hy, hy', hlt⟩
      refine ⟨_, dominant_top htm ht htmin hnone fun n hnm hn hnt z hz => ?_⟩
      rcases none_or_isSome pref z with hz' | hz'
      · exact hnt.trans (hnone z hz hz')
      · exact not_lt.1 fun hlt =>
          hnot n hnm hn (fun y hy hy' => hnt.trans (hnone y hy hy')) hnt z hz
          hz' hlt.le (hlt.trans_le hnt)
  · have hnone : ∀ x ∈ xs, pref x = none := fun x hx =>
      (none_or_isSome pref x).resolve_right fun h => hM ⟨x, hx, h⟩
    obtain ⟨x, hx⟩ := exists_mem_of_ne_nil xs hne
    obtain ⟨n, hnm, hn, hmin⟩ :=
      exists_min_rank (p := fun x => pref x = none) rank ⟨x, hx, hnone x hx⟩
    exact ⟨_, dominant_none hnm hn hmin fun y hy hy' => absurd ⟨y, hy, hy'⟩ hM⟩

/-- An order that begins with `a` and then takes the elements that satisfy `p`, none of which beats
`a`; the others lead to `D`. -/
theorem exists_order {beats : α → α → Prop} [DecidableRel beats] {p D : α → Prop} [DecidablePred p]
    (ha : a ∈ xs) (hp : ∀ x ∈ xs, p x → ¬beats x a) (hb : b ∈ xs) (hpb : ¬p b) (hD : D b)
    (habs : ∀ x ∈ xs, ¬p x → ∀ y ∈ xs, D y → beats x y → D x)
    (hbeats : ∀ x ∈ xs, x = a ∨ ¬p x → ¬D x → beats b x) :
    ∃ ys r, ys.Perm xs ∧ choice beats ys = some r ∧ r ∈ xs ∧ D r := by
  obtain ⟨as, bs, rfl⟩ := append_of_mem ha
  have hperm := filter_append_perm (fun x => decide (p x)) (as ++ bs)
  have hfirst : select beats a ((as ++ bs).filter fun x => decide (p x)) = a :=
    select_eq_self fun x hx => hp x (by grind) (by simpa using (mem_filter.1 hx).2)
  have hmem : select beats a ((as ++ bs).filter fun x => !decide (p x)) ∈ _ := select_mem a _
  refine ⟨_, _, (hperm.cons a).trans perm_middle.symm, rfl, ?_⟩
  rw [select_append, hfirst]
  refine ⟨by grind, select_of_leader ?_ ?_ hD ?_⟩
  · grind
  · grind
  · grind

/-- An element with a preference that no element without one beats takes those in; the elements with
a preference that come then lead to the highest. -/
theorem exists_order_top {m : α} (hmm : m ∈ xs) (hm : (pref m).isSome)
    (hnone : ∀ y ∈ xs, pref y = none → rank m ≤ rank y) :
    ∃ ys r, ys.Perm xs ∧ choice (Beats pref rank) ys = some r ∧ r ∈ xs ∧ Top pref xs r := by
  obtain ⟨t, htm, ht⟩ := exists_top ⟨m, hmm, hm⟩
  have hsome : ∀ x, pref x ≠ none → (pref x).isSome := fun x => isSome_iff_ne_none.2
  refine exists_order (p := fun x => pref x = none) hmm ?_ htm ?_ ht ?_ ?_
  · intro x hx hx'
    rw [beats_iff_rank_left hx']
    exact not_lt.2 (hnone x hx hx')
  · obtain ⟨v, hv, -⟩ := ht
    simp [hv]
  · intro x hx hx' y hy htop hxy
    exact ((htop.beats_right_iff hy hx (hsome x hx')).1 hxy).1
  · rintro x hx hx' hnot
    have hx' : (pref x).isSome := hx'.elim (· ▸ hm) (hsome x)
    exact (ht.beats_left_iff htm hx hx').2 fun h => absurd h hnot

/-- An element without preference takes in all that is no better in rank; what comes then is
better. -/
theorem exists_order_rank {n m : α} (hnm : n ∈ xs) (hmm : m ∈ xs) (hn : pref n = none)
    (hlt : rank m < rank n) :
    ∃ ys r, ys.Perm xs ∧ choice (Beats pref rank) ys = some r ∧ r ∈ xs ∧ rank r < rank n := by
  refine exists_order (p := fun x => rank n ≤ rank x) hnm ?_ hmm (not_le.2 hlt) hlt ?_ ?_
  · intro x _ hx
    rw [beats_iff_rank_right hn]
    exact not_lt.2 hx
  · intro x _ hx _ _ _ _
    exact not_le.1 hx
  · rintro x _ (rfl | hx) hnot
    · exact (beats_iff_rank_right hn).2 hlt
    · exact absurd (not_le.1 hx) hnot

theorem choice_mem {beats : α → α → Prop} [DecidableRel beats] {r : α}
    (h : choice beats xs = some r) : r ∈ xs := by
  cases xs with
  | nil => cases h
  | cons x xs =>
    cases h
    exact select_mem x xs

theorem not_sound_of_torn (h : Torn pref rank xs) : ¬Sound (Beats pref rank) xs := by
  rintro ⟨r, hr, hunbeaten, hperm⟩
  obtain ⟨n, hnm, m, hmm, hn, hm, hmin, hmn, htop⟩ := h
  have hrm := choice_mem hr
  rcases none_or_isSome pref r with hr' | hr'
  · -- `r` is level with `n` and `m`: an order that goes through `m` ends in a lower rank
    have hmr := hunbeaten m hmm
    rw [beats_iff_rank_right hr', not_lt] at hmr
    have hnone : ∀ y ∈ xs, pref y = none → rank m ≤ rank y := fun y hy hy' =>
      hmn.trans (hmin y hy hy')
    obtain ⟨ys, r', hys, hchoice, hr'm, hr'top⟩ := exists_order_top hmm hm hnone
    obtain ⟨r'', hchoice', hnot, -⟩ := hperm ys hys
    cases hchoice.symm.trans hchoice'
    apply hnot
    rw [beats_iff_rank_left hr']
    exact hmr.trans_lt (htop r' hr'm hr'top).2
  · -- `r` has the highest preference: an order that goes through `n` ends in a lower preference
    have hrtop : Top pref xs r := by
      obtain ⟨t, htm, ht⟩ := exists_top ⟨m, hmm, hm⟩
      by_contra hnot
      exact hunbeaten t htm ((ht.beats_left_iff htm hrm hr').2 fun h => absurd h hnot)
    have hnr := hunbeaten n hnm
    rw [beats_iff_rank_left hn, not_lt] at hnr
    obtain ⟨ys, r', hys, hchoice, hr'm, hlt⟩ := exists_order_rank hnm hmm hn
      ((htop r hrm hrtop).2.trans_le hnr)
    obtain ⟨r'', hchoice', hnot, -⟩ := hperm ys hys
    cases hchoice.symm.trans hchoice'
    apply hnot
    refine (hrtop.beats_left_iff hrm hr'm ?_).2 fun htop' => ?_
    · exact (none_or_isSome pref r').resolve_left fun h => absurd (hmin r' hr'm h) (not_le.2 hlt)
    · exact absurd (htop r' hr'm htop').1 (not_le.2 hlt)

/-- The fold is sound exactly on the lists that are not torn. -/
theorem sound_iff (hne : xs ≠ []) : Sound (Beats pref rank) xs ↔ ¬Torn pref rank xs := by
  constructor
  · intro hsound htorn
    exact not_sound_of_torn htorn hsound
  · intro h
    obtain ⟨D, hD⟩ := exists_dominant hne h
    exact sound_of_dominant hD

end Preference

end BebaCtrl.Selection
