import Mathlib.Order.Basic

/-!
Owns the monotonic clock and the optional time-to-live that both cache tiers
test. Instants and durations are natural numbers of nanoseconds, so
`Instant::elapsed` is the truncated difference that Rust's saturating
subtraction returns.
-/

namespace RustySsr.Platform

/-- `created_at.elapsed()` when the clock reads `now`. -/
def elapsed (createdAt now : Nat) : Nat := now - createdAt

/-- `Duration::from_secs`, in nanoseconds. -/
def fromSecs (secs : Nat) : Nat := secs * 1000000000

/-- The constructors' reading of `ttl_secs`, where zero means no expiration. -/
def ttlOfSecs (ttlSecs : Nat) : Option Nat :=
  if 0 < ttlSecs then some (fromSecs ttlSecs) else none

/-- `created_at.elapsed() > ttl`; an absent time-to-live never runs out. -/
def outlived (ttl : Option Nat) (createdAt now : Nat) : Bool :=
  match ttl with
  | some ttl => decide (ttl < elapsed createdAt now)
  | none => false

theorem ttlOfSecs_pos {ttlSecs : Nat} (positive : 0 < ttlSecs) :
    ttlOfSecs ttlSecs = some (fromSecs ttlSecs) := by
  simp [ttlOfSecs, positive]

@[simp] theorem outlived_none (createdAt now : Nat) :
    outlived none createdAt now = false := rfl

theorem outlived_some_iff {ttl createdAt now : Nat} :
    outlived (some ttl) createdAt now = true ↔ createdAt + ttl < now := by
  show decide (ttl < now - createdAt) = true ↔ createdAt + ttl < now
  rw [decide_eq_true_iff]
  omega

/-- An entry tested at the instant it was created is never past its time. -/
@[simp] theorem outlived_self (ttl : Option Nat) (now : Nat) :
    outlived ttl now now = false := by
  cases ttl <;> simp [outlived, elapsed]

/-- Once past its time, an entry stays past it. -/
theorem outlived_mono {ttl : Option Nat} {createdAt now later : Nat}
    (ordered : now ≤ later) (expired : outlived ttl createdAt now = true) :
    outlived ttl createdAt later = true := by
  cases ttl with
  | none => exact expired
  | some ttl =>
      rw [outlived_some_iff] at expired ⊢
      omega

end RustySsr.Platform
