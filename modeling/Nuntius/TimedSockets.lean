import Mathlib.Data.List.Infix
import Mathlib.Data.Nat.Find
import Mathlib.Order.Basic
import Nuntius.InteractivePrograms

/-!
# Blocking sockets with a read timeout

A program that looks at the clock and reads a socket, in a world where time passes. The peer sends
what it likes when it likes; a read returns some of what has arrived, or that the peer has closed,
or, after its timeout, that nothing came. Every call takes some time of its own, at most `lag`.

`Returns` is the rule for such programs: no call waits for an answer that cannot come, and
whatever the answers are, the program ends with a result and a world as described.
-/

namespace Nuntius.TimedSockets
open InteractivePrograms

/-! ### Programs in a world that moves -/

section Worlds
variable {Q : Type} {A : Q → Type} {R S W : Type} {serve : W → (q : Q) → A q → W → Prop}

/-- From the world the program goes on to an end, whatever it is answered, and the result and
the world then satisfy `post`. -/
def Returns (serve : W → (q : Q) → A q → W → Prop) (post : R → W → Prop) : Prog A R → W → Prop
  | .ret r, w => post r w
  | .ask q k, w =>
    (∃ a w', serve w q a w') ∧ ∀ a w', serve w q a w' → Returns serve post (k a) w'

theorem Returns.mono {post post' : R → W → Prop} {p : Prog A R} {w : W}
    (h : Returns serve post p w) (hpost : ∀ r w', post r w' → post' r w') :
    Returns serve post' p w := by
  induction p generalizing w with
  | ret r => exact hpost r w h
  | ask q k ih => exact ⟨h.1, fun a w' hserve => ih a (h.2 a w' hserve)⟩

theorem Returns.bind {mid : R → W → Prop} {post : S → W → Prop} {p : Prog A R}
    {f : R → Prog A S} {w : W} (hp : Returns serve mid p w)
    (hf : ∀ r w', mid r w' → Returns serve post (f r) w') : Returns serve post (p >>= f) w := by
  change Returns serve post (p.bind f) w
  induction p generalizing w with
  | ret r => exact hf r w hp
  | ask q k ih => exact ⟨hp.1, fun a w' hserve => ih a (hp.2 a w' hserve)⟩

end Worlds

/-! ### The peer -/

/-- What has arrived from a peer by each moment, when it closes its side, and the moments at which
calls on the socket can fail. -/
structure Peer where
  received : ℕ → List UInt8
  closed : ℕ → Prop
  fails : ℕ → Prop
  grows : ∀ {s t : ℕ}, s ≤ t → received s <+: received t
  final : ∀ {s t : ℕ}, s ≤ t → closed s → closed t ∧ received t = received s

namespace Peer
variable {p : Peer} {taken n s t : ℕ}

/-- At least `n` bytes have arrived. -/
def Has (p : Peer) (n t : ℕ) : Prop := n ≤ (p.received t).length

/-- A read behind `taken` bytes need not wait. -/
def Ready (p : Peer) (taken t : ℕ) : Prop := p.Has (taken + 1) t ∨ p.closed t

theorem Has.mono (h : p.Has n s) (hst : s ≤ t) : p.Has n t :=
  Nat.le_trans h (p.grows hst).length_le

theorem Has.ready (h : p.Has n t) (hn : taken < n) : p.Ready taken t :=
  .inl (Nat.le_trans hn h)

/-- Nothing arrives from a closed peer. -/
theorem not_has_of_closed (hclosed : p.closed s) (h : ¬ p.Has n s) : ¬ p.Has n t := by
  intro hhas
  rcases Nat.le_total s t with hst | hts
  · rw [Has, (p.final hst hclosed).2] at hhas
    exact h hhas
  · exact h (hhas.mono hts)

/-- What was behind the taken bytes stays there. -/
theorem prefix_drop (hst : s ≤ t) (n : ℕ) : (p.received s).drop n <+: (p.received t).drop n := by
  obtain ⟨more, hmore⟩ := p.grows hst
  rcases Nat.le_total n (p.received s).length with hle | hle
  · exact ⟨more, by rw [← hmore, List.drop_append_of_le_length hle]⟩
  · rw [List.drop_of_length_le hle]
    exact List.nil_prefix

end Peer

/-! ### The calls -/

inductive Call where
  | now
  | setReadTimeout (wait : ℕ)
  | setWriteTimeout (wait : ℕ)
  | read (room : ℕ)
deriving DecidableEq, Repr

/-- How a read fails: the timeout ran out, or something else. -/
inductive ReadFault where
  | timedOut
  | other
deriving DecidableEq, Repr

/-- What a read puts into the room it was given. -/
abbrev Chunk (room : ℕ) := { bytes : List UInt8 // bytes.length ≤ room }

abbrev Answer : Call → Type
  | .now => ℕ
  | .setReadTimeout _ => Bool
  | .setWriteTimeout _ => Bool
  | .read room => Except ReadFault (Chunk room)

/-- A moment of a connection: the time, the bytes read so far, and the timeout of its reads. -/
structure Moment where
  now : ℕ
  taken : ℕ
  timeout : Option ℕ
deriving DecidableEq, Repr

/-- A call that need not wait for anything returns at `t`. -/
structure AtOnce (lag : ℕ) (w : Moment) (t : ℕ) : Prop where
  after : w.now ≤ t
  soon : t ≤ w.now + lag

/-- A read returns at `t`: within the lag once it need not wait, and within the lag after its
timeout. -/
structure Prompt (p : Peer) (lag : ℕ) (w : Moment) (t : ℕ) : Prop where
  after : w.now ≤ t
  ready : ∀ s, w.now ≤ s → p.Ready w.taken s → t ≤ s + lag
  expired : ∀ wait, w.timeout = some wait → t ≤ w.now + wait + lag

/-- How the world answers a call. A timeout of zero is refused; a read without a timeout waits
until something comes. -/
def serve (p : Peer) (lag : ℕ) (w : Moment) : (q : Call) → Answer q → Moment → Prop
  | .now, t, w' => AtOnce lag w t ∧ w' = { w with now := t }
  | .setReadTimeout wait, true, w' =>
    0 < wait ∧ ∃ t, AtOnce lag w t ∧ w' = { w with now := t, timeout := some wait }
  | .setReadTimeout wait, false, w' =>
    ∃ t, AtOnce lag w t ∧ (wait = 0 ∨ p.fails t) ∧ w' = { w with now := t }
  | .setWriteTimeout wait, true, w' => 0 < wait ∧ ∃ t, AtOnce lag w t ∧ w' = { w with now := t }
  | .setWriteTimeout wait, false, w' =>
    ∃ t, AtOnce lag w t ∧ (wait = 0 ∨ p.fails t) ∧ w' = { w with now := t }
  | .read room, .ok got, w' => ∃ t, Prompt p lag w t ∧
    ((∃ s, w.now ≤ s ∧ s ≤ t ∧ p.Has (w.taken + 1) s ∧
        got.val = ((p.received s).drop w.taken).take room ∧
        w' = { w with now := t, taken := w.taken + got.val.length }) ∨
      (p.closed t ∧ ¬ p.Has (w.taken + 1) t ∧ got.val = [] ∧ w' = { w with now := t }))
  | .read _, .error .timedOut, w' => ∃ t, Prompt p lag w t ∧ w' = { w with now := t } ∧
    ∃ wait, w.timeout = some wait ∧ w.now + wait ≤ t ∧
      ∀ s, w.now ≤ s → s < w.now + wait → ¬ p.Ready w.taken s
  | .read _, .error .other, w' => ∃ t, Prompt p lag w t ∧ p.fails t ∧ w' = { w with now := t }

theorem atOnce_now (lag : ℕ) (w : Moment) : AtOnce lag w w.now :=
  ⟨Nat.le_refl _, Nat.le_add_right _ _⟩

/-- A read with a timeout comes back. -/
theorem serve_read {p : Peer} {lag : ℕ} {w : Moment} {wait : ℕ} (hwait : w.timeout = some wait)
    (room : ℕ) : ∃ a w', serve p lag w (.read room) a w' := by
  classical
  by_cases hready : ∃ s, w.now ≤ s ∧ s < w.now + wait ∧ p.Ready w.taken s
  · -- It comes back at the first moment at which it need not wait.
    obtain ⟨hafter, hbefore, hs⟩ := Nat.find_spec hready
    have hleast : ∀ s, w.now ≤ s → p.Ready w.taken s → Nat.find hready ≤ s := by
      intro s hs hsready
      by_contra hlt
      exact Nat.find_min hready (by omega) ⟨hs, by omega, hsready⟩
    have hprompt : Prompt p lag w (Nat.find hready) := by
      refine ⟨hafter, fun s hs hsready => Nat.le_add_right_of_le (hleast s hs hsready), ?_⟩
      intro wait' hwait'
      rw [hwait, Option.some.injEq] at hwait'
      omega
    by_cases hhas : p.Has (w.taken + 1) (Nat.find hready)
    · exact ⟨.ok ⟨_, List.length_take_le room _⟩, _, _, hprompt,
        .inl ⟨_, hafter, Nat.le_refl _, hhas, rfl, rfl⟩⟩
    · exact ⟨.ok ⟨[], Nat.zero_le room⟩, _, _, hprompt,
        .inr ⟨hs.resolve_left hhas, hhas, rfl, rfl⟩⟩
  · have hquiet : ∀ s, w.now ≤ s → s < w.now + wait → ¬ p.Ready w.taken s :=
      fun s hs hlt hsready => hready ⟨s, hs, hlt, hsready⟩
    refine ⟨.error .timedOut, _, w.now + wait, ⟨Nat.le_add_right _ _, ?_, ?_⟩, rfl, wait, hwait,
      Nat.le_refl _, hquiet⟩
    · intro s hs hsready
      by_contra hlt
      exact hquiet s hs (by omega) hsready
    · intro wait' hwait'
      rw [hwait, Option.some.injEq] at hwait'
      omega

end Nuntius.TimedSockets
