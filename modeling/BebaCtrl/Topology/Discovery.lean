import Mathlib.Data.Set.Insert
import Mathlib.Tactic.Common

/-!
# Discovered links

What link discovery is about: a set of links between ports, the port each port was last seen to
reach, and the set of links the observers were told of. Ports are compared and nothing else.

The peers may be out of step with the links in two ways: a port may have a link to a port that is
not its peer, and a link may be left over from a port that has no peer. In a `Faithful` view neither
is the case and the observers know exactly the links.
-/

namespace BebaCtrl.Discovery

@[ext] structure View (P : Type) where
  links : Set (P × P)
  peer : P → Option P
  announced : Set (P × P)

variable {P : Type} [DecidableEq P]

namespace View

/-- A packet of `src` arrives at `dst`. A changed peer is announced as the loss of the link to the
old one, but that link stays. -/
def discover (v : View P) (src dst : P) : View P where
  links := insert (src, dst) v.links
  peer := Function.update v.peer src (some dst)
  announced := {l | l ∈ v.announced ∧ ¬(l.1 = src ∧ v.peer src = some l.2 ∧ l.2 ≠ dst) ∨
    l = (src, dst) ∧ l ∉ v.links}

/-- The port goes down. The links between it and its peer are lost; what is announced as the loss of
the other direction is the link of the peer to the port that it reaches, whichever that is. -/
def down (v : View P) (p : P) : View P where
  links := {l | l ∈ v.links ∧ ¬(v.peer p = some l.2 ∧ l.1 = p) ∧ ¬(v.peer p = some l.1 ∧ l.2 = p)}
  peer k := if k = p ∨ v.peer p = some k then none else v.peer k
  announced := {l | l ∈ v.announced ∧ ¬(v.peer p = some l.2 ∧ l.1 = p) ∧
    ¬(v.peer p = some l.1 ∧ v.peer l.1 = some l.2)}

/-- The link times out. -/
def expire (v : View P) (l : P × P) : View P where
  links := v.links \ {l}
  peer k := if k = l.1 then none else v.peer k
  announced := v.announced \ {l}

/-! ### Several ports go down -/

variable {v : View P} {ports : List P} {l : P × P} {k : P}

/-- The link joins one of the ports with the peer of that port. -/
def Joins (v : View P) (ports : List P) (l : P × P) : Prop :=
  ∃ p ∈ ports, v.peer p = some l.2 ∧ l.1 = p ∨ v.peer p = some l.1 ∧ l.2 = p

/-- None of the ports is the peer of another one. -/
def Apart (v : View P) (ports : List P) : Prop :=
  ∀ p ∈ ports, ∀ d, v.peer p = some d → d ∉ ports

theorem Apart.down {p : P} (h : v.Apart (p :: ports)) : (v.down p).Apart ports := by
  intro q hq d hd hmem
  simp only [View.down] at hd
  split at hd
  · cases hd
  · exact h q (List.mem_cons_of_mem p hq) d hd (List.mem_cons_of_mem p hmem)

theorem mem_links_foldl_down (h : v.Apart ports) :
    l ∈ (ports.foldl down v).links ↔ l ∈ v.links ∧ ¬v.Joins ports l := by
  induction ports generalizing v with
  | nil => simp [Joins]
  | cons p ports ih =>
    rw [List.foldl_cons, ih h.down]
    unfold Apart at h
    simp only [Joins, down, Set.mem_ofPred_eq]
    grind

theorem peer_foldl_down (h : v.Apart ports) : (ports.foldl down v).peer k =
    if k ∈ ports ∨ ∃ p ∈ ports, v.peer p = some k then none else v.peer k := by
  induction ports generalizing v with
  | nil => simp
  | cons p ports ih =>
    rw [List.foldl_cons, ih h.down]
    unfold Apart at h
    simp only [down]
    grind

theorem mem_announced_foldl_down (h : v.Apart ports) :
    l ∈ (ports.foldl down v).announced ↔ l ∈ v.announced ∧
      ∀ p ∈ ports, ¬(v.peer p = some l.2 ∧ l.1 = p) ∧
        ¬(v.peer p = some l.1 ∧ v.peer l.1 = some l.2) := by
  induction ports generalizing v with
  | nil => simp
  | cons p ports ih =>
    rw [List.foldl_cons, ih h.down]
    unfold Apart at h
    simp only [down, Set.mem_ofPred_eq]
    grind

/-! ### Views that are in step -/

/-- The peer of a port is the end of a link of it, and no link joins two ports of one side. -/
structure Sound {S : Type} (side : P → S) (v : View P) : Prop where
  link_of_peer : ∀ p d, v.peer p = some d → (p, d) ∈ v.links
  side_ne : ∀ l ∈ v.links, side l.1 ≠ side l.2

structure Faithful {S : Type} (side : P → S) (v : View P) : Prop extends v.Sound side where
  peer_of_link : ∀ p d, (p, d) ∈ v.links → v.peer p = some d
  announced_eq : v.announced = v.links

variable {S : Type} {side : P → S} {src dst : P}

omit [DecidableEq P] in
/-- Ports of one side are apart. -/
theorem Sound.apart (h : v.Sound side) {c : S} (hports : ∀ p ∈ ports, side p = c) :
    v.Apart ports := by
  intro p hp d hd hmem
  exact h.side_ne (p, d) (h.link_of_peer p d hd) ((hports p hp).trans (hports d hmem).symm)

theorem Sound.discover (h : v.Sound side) (hside : side src ≠ side dst) :
    (v.discover src dst).Sound side := by
  obtain ⟨hpeer, hne⟩ := h
  constructor
  · intro p d hd
    simp only [View.discover, Function.update_apply, Set.mem_insert_iff] at hd ⊢
    grind
  · simp only [View.discover, Set.forall_mem_insert]
    exact ⟨hside, hne⟩

theorem Sound.foldl_down (h : v.Sound side) (hapart : v.Apart ports) :
    (ports.foldl down v).Sound side := by
  obtain ⟨hpeer, hne⟩ := h
  constructor
  · intro p d hd
    rw [peer_foldl_down hapart] at hd
    rw [mem_links_foldl_down hapart]
    unfold Joins
    grind
  · intro l hl
    exact hne l ((mem_links_foldl_down hapart).1 hl).1

/-- A discovery is announced as it should be if and only if the port had no other peer. -/
theorem Faithful.discover_iff (h : v.Faithful side) :
    (v.discover src dst).announced = (v.discover src dst).links ↔
      ∀ d, v.peer src = some d → d = dst := by
  obtain ⟨⟨hlink, hne⟩, hpeer, hann⟩ := h
  simp only [Set.ext_iff, View.discover, Set.mem_ofPred_eq, Set.mem_insert_iff, hann]
  grind

theorem Faithful.discover (h : v.Faithful side) (hside : side src ≠ side dst)
    (hsame : ∀ d, v.peer src = some d → d = dst) : (v.discover src dst).Faithful side := by
  refine ⟨h.toSound.discover hside, ?_, h.discover_iff.2 hsame⟩
  obtain ⟨⟨hlink, hne⟩, hpeer, hann⟩ := h
  simp only [View.discover, Function.update_apply, Set.mem_insert_iff]
  grind

/-- The loss of ports is announced as it should be if and only if the peer of each one reaches one
of them that reaches it. -/
theorem Faithful.foldl_down_iff (h : v.Faithful side) (hapart : v.Apart ports) :
    (ports.foldl down v).announced = (ports.foldl down v).links ↔
      ∀ p ∈ ports, ∀ d x, v.peer p = some d → v.peer d = some x →
        x ∈ ports ∧ v.peer x = some d := by
  obtain ⟨⟨hlink, hne⟩, hpeer, hann⟩ := h
  simp only [Set.ext_iff, mem_links_foldl_down hapart, mem_announced_foldl_down hapart, hann, Joins]
  unfold Apart at hapart
  constructor
  · grind
  · grind

theorem Faithful.foldl_down (h : v.Faithful side) (hapart : v.Apart ports)
    (hback : ∀ p ∈ ports, ∀ d x, v.peer p = some d → v.peer d = some x →
      x ∈ ports ∧ v.peer x = some d) : (ports.foldl down v).Faithful side := by
  refine ⟨h.toSound.foldl_down hapart, ?_, (h.foldl_down_iff hapart).2 hback⟩
  obtain ⟨⟨hlink, hne⟩, hpeer, hann⟩ := h
  intro p d hl
  rw [peer_foldl_down hapart]
  rw [mem_links_foldl_down hapart] at hl
  unfold Joins at hl
  grind

theorem Sound.expire (h : v.Sound side) : (v.expire l).Sound side := by
  obtain ⟨hlink, hne⟩ := h
  constructor
  · simp only [View.expire, Set.mem_sdiff, Set.mem_singleton_iff]
    grind
  · intro l' hl'
    exact hne l' hl'.1

theorem Faithful.expire (h : v.Faithful side) (hl : l ∈ v.links) :
    (v.expire l).Faithful side := by
  refine ⟨h.toSound.expire, ?_, ?_⟩
  · obtain ⟨⟨hlink, hne⟩, hpeer, hann⟩ := h
    simp only [View.expire, Set.mem_sdiff, Set.mem_singleton_iff]
    grind
  · simp only [View.expire, h.announced_eq]

end View

end BebaCtrl.Discovery
