import Sponge.Basic
import Sponge.Lib.Exec
import Sponge.Lib.Words

/-!
# Wrapping sequence numbers

`WrappingInt32`, `wrap` and `unwrap` of `wrapping_integers.cc`. `unwrap` searches
upwards from the checkpoint's own block of `2 ^ 32` numbers in 64-bit arithmetic:
next to the top of that range the search wraps and never ends.

* `unwrap_near`, `unwrap_ok`: what a returned number satisfies;
* `unwrap_wrap`, `unwrap_close`: a number close to the checkpoint is recovered;
* `unwrap_low`: a checkpoint below `2 ^ 31` always gives the 32-bit offset;
* `unwrap_returns_iff`: when it returns;
* `unwrap_closest`: of all the numbers that wrap to `n`, the closest is returned.
-/

namespace Sponge

open Words

structure WrappingInt32 where
  rawValue : UInt32
  deriving DecidableEq, Repr

namespace WrappingInt32

/-- `operator-` of two of them, an `int32_t`. -/
def sub (a b : WrappingInt32) : Int := narrow (a.rawValue - b.rawValue).toNat

/-- `operator+` with a `uint32_t`. -/
def add (a : WrappingInt32) (b : UInt32) : WrappingInt32 := ⟨a.rawValue + b⟩

/-- The number of increments from `isn` to `n`. -/
def offset (n isn : WrappingInt32) : Nat := (n.rawValue - isn.rawValue).toNat

theorem offset_lt (n isn : WrappingInt32) : offset n isn < 2 ^ 32 :=
  (n.rawValue - isn.rawValue).toNat_lt

end WrappingInt32

def wrap (n : Nat) (isn : WrappingInt32) : WrappingInt32 := isn.add (UInt32.ofNat n)

/-- One test of `while (tmp <= checkpoint) tmp += (1ll << 32)`. -/
def climb (checkpoint tmp : Nat) : Except Fault (ForInStep Nat) :=
  .ok (if tmp ≤ checkpoint then .yield ((tmp + 2 ^ 32) % 2 ^ 64) else .done tmp)

/-- The loop visits every number of its residue within `2 ^ 32` rounds, so one that
has not ended by then never does. -/
def unwrap (n isn : WrappingInt32) (checkpoint : Nat) : Except Fault Nat := do
  let tmp := if n.sub isn < 0 then widen (n.sub isn + 2 ^ 32) else widen (n.sub isn)
  if tmp ≥ checkpoint then
    return tmp
  let tmp ← Exec.loop .spins (climb checkpoint) (2 ^ 32 + 1) (tmp ||| checkpoint >>> 32 <<< 32)
  let tmp1 := sub64 tmp (2 ^ 32)
  return if sub64 checkpoint tmp1 < sub64 tmp checkpoint then tmp1 else tmp

namespace WrappingInt32

@[simp] theorem offset_wrap (a : Nat) (isn : WrappingInt32) :
    offset (wrap a isn) isn = a % 2 ^ 32 := by
  rw [offset, wrap, add, UInt32.add_comm, UInt32.add_sub_cancel, UInt32.toNat_ofNat']

/-- The offset from a number further on. -/
theorem offset_from_wrap (n isn : WrappingInt32) (m : Nat) :
    offset n (wrap m isn) = (offset n isn + 2 ^ 32 - m % 2 ^ 32) % 2 ^ 32 := by
  have hn := n.rawValue.toNat_lt
  have hi := isn.rawValue.toNat_lt
  simp only [offset, wrap, add, UInt32.toNat_sub, UInt32.toNat_add, UInt32.toNat_ofNat']
  omega

theorem wrap_offset (n isn : WrappingInt32) : wrap (offset n isn) isn = n := by
  rw [offset, wrap, add, UInt32.ofNat_toNat, UInt32.add_comm, UInt32.sub_add_cancel]

theorem offset_eq_zero {n isn : WrappingInt32} : offset n isn = 0 ↔ n = isn := by
  constructor
  · intro h
    rw [← wrap_offset n isn, h]
    simp [wrap, add]
  · rintro rfl
    simp [offset]

/-- The signed difference, shifted when negative, is the offset. -/
theorem sub_eq_offset (n isn : WrappingInt32) :
    (if n.sub isn < 0 then widen (n.sub isn + 2 ^ 32) else widen (n.sub isn)) =
      offset n isn := by
  have h := offset_lt n isn
  have hsub : n.sub isn = ((offset n isn + 2 ^ 31) % 2 ^ 32 : Nat) - 2 ^ 31 := rfl
  rw [hsub, widen, widen]
  split <;> omega

end WrappingInt32

open WrappingInt32

theorem wrap_mod (v : Nat) (isn : WrappingInt32) : wrap (v % 2 ^ 32) isn = wrap v isn := by
  rw [wrap, wrap, show (2 : Nat) ^ 32 = UInt32.size from rfl, UInt32.ofNat_mod_size]

/-- The numbers that wrap to `n` are those with its offset in their low half. -/
theorem wrap_eq_iff {v : Nat} {n isn : WrappingInt32} :
    wrap v isn = n ↔ v % 2 ^ 32 = offset n isn := by
  constructor
  · rintro rfl
    rw [offset_wrap]
  · intro h
    rw [← wrap_mod, h, wrap_offset]

/-- When no number of the residue is above the checkpoint the search goes round
for ever. -/
theorem climb_spins {c x : Nat} (h : ∀ t, t < 2 ^ 64 → t % 2 ^ 32 = x → t ≤ c) (n t : Nat)
    (ht : t < 2 ^ 64) (hx : t % 2 ^ 32 = x) :
    Exec.loop .spins (climb c) n t = .error .spins := by
  induction n generalizing t with
  | zero => rfl
  | succ n ih =>
    simp only [Exec.loop, climb, h t ht hx, ↓reduceIte]
    apply ih <;> omega

/-- The search ends at the first number above the checkpoint, if it ends. -/
theorem climb_ok {n c tmp w : Nat} (hlo : c < tmp + 2 ^ 32) (hhi : tmp ≤ c + 2 ^ 32)
    (h : Exec.loop .spins (climb c) n tmp = .ok w) :
    w % 2 ^ 32 = tmp % 2 ^ 32 ∧ c < w ∧ w ≤ c + 2 ^ 32 ∧ (w = tmp ∨ w < 2 ^ 64) := by
  obtain ⟨u, hu⟩ : ∃ u, (tmp + 2 ^ 32) % 2 ^ 64 = u := ⟨_, rfl⟩
  cases n with
  | zero => cases h
  | succ n =>
    simp only [Exec.loop, climb, hu] at h
    by_cases hle : tmp ≤ c
    · simp only [hle, ↓reduceIte] at h
      by_cases htop : tmp + 2 ^ 32 < 2 ^ 64
      · have hcu : ¬ u ≤ c := by omega
        cases n with
        | zero => cases h
        | succ n =>
          simp only [Exec.loop, climb, hcu, ↓reduceIte] at h
          cases h
          omega
      · rw [climb_spins (x := tmp % 2 ^ 32) (by omega) _ _ (by omega) (by omega)] at h
        cases h
    · simp only [hle, ↓reduceIte] at h
      cases h
      omega

/-- Away from the top of the 64-bit range two tests are enough. -/
theorem climb_returns {n c : Nat} (tmp : Nat) (hn : 2 ≤ n)
    (htop : tmp ≤ c → tmp + 2 ^ 32 < 2 ^ 64) (hlo : c < tmp + 2 ^ 32) :
    ∃ w, Exec.loop .spins (climb c) n tmp = .ok w := by
  obtain ⟨n, rfl⟩ := Nat.exists_eq_add_of_le' hn
  obtain ⟨u, hu⟩ : ∃ u, (tmp + 2 ^ 32) % 2 ^ 64 = u := ⟨_, rfl⟩
  by_cases hle : tmp ≤ c
  · have hcu : ¬ u ≤ c := by omega
    exact ⟨u, by simp only [Exec.loop, climb, hu, hle, hcu, ↓reduceIte]⟩
  · exact ⟨tmp, by simp only [Exec.loop, climb, hle, ↓reduceIte]⟩

/-- The offset in the checkpoint's own block. -/
theorem block_or {x c : Nat} (hx : x < 2 ^ 32) :
    x ||| c >>> 32 <<< 32 = c / 2 ^ 32 * 2 ^ 32 + x := by
  rw [Nat.or_comm, ← Nat.shiftLeft_add_eq_or_of_lt hx, Nat.shiftLeft_eq, Nat.shiftRight_eq_div_pow]

/-- A returned number has the offset of `n` in its low half, and is that offset at or
above the checkpoint, or a number within half the range of the checkpoint. One not
above the checkpoint is a whole block below `2 ^ 64`. -/
theorem unwrap_near {n isn : WrappingInt32} {c v : Nat} (h : unwrap n isn c = .ok v) :
    v % 2 ^ 32 = offset n isn ∧
      (c ≤ v ∧ v = offset n isn ∨ c < v + 2 ^ 31 ∧ v ≤ c + 2 ^ 31) ∧
      (c < 2 ^ 64 → v < 2 ^ 64 ∧ (v ≤ c → v + 2 ^ 32 < 2 ^ 64)) := by
  have hx := offset_lt n isn
  simp only [unwrap, sub_eq_offset] at h
  split at h
  · cases h
    omega
  · rw [block_or hx] at h
    obtain ⟨w, hw, hv⟩ := Exec.bind_eq_ok.mp h
    obtain ⟨h1, h2, h3, h4⟩ := climb_ok (by omega) (by omega) hw
    rw [sub64_of_le (show 2 ^ 32 ≤ w by omega), sub64_of_le (show c ≤ w by omega),
      sub64_of_le (show w - 2 ^ 32 ≤ c by omega)] at hv
    cases hv
    split <;> omega

theorem unwrap_ok {n isn : WrappingInt32} {c v : Nat} (hc : c < 2 ^ 64)
    (h : unwrap n isn c = .ok v) :
    v % 2 ^ 32 = offset n isn ∧
      (c ≤ v ∧ v = offset n isn ∨ c < v + 2 ^ 31 ∧ v ≤ c + 2 ^ 31 ∧ v < 2 ^ 64) ∧
      (v ≤ c → v + 2 ^ 32 < 2 ^ 64) := by
  have := unwrap_near h
  omega

/-- It returns when the checkpoint is below the last block, or the offset above its low
half. -/
theorem unwrap_reaches (n isn : WrappingInt32) {c : Nat}
    (h : c + 2 ^ 32 < 2 ^ 64 ∨ c % 2 ^ 32 < offset n isn) : ∃ v, unwrap n isn c = .ok v := by
  have hx := offset_lt n isn
  simp only [unwrap, sub_eq_offset, block_or hx]
  split
  · exact ⟨_, rfl⟩
  · obtain ⟨w, hw⟩ := climb_returns (n := 2 ^ 32 + 1) (c := c) (c / 2 ^ 32 * 2 ^ 32 + offset n isn)
      (by omega) (by omega) (by omega)
    rw [hw]
    exact ⟨_, rfl⟩

theorem unwrap_returns (n isn : WrappingInt32) {c : Nat} (hc : c + 2 ^ 32 < 2 ^ 64) :
    ∃ v, unwrap n isn c = .ok v := unwrap_reaches n isn (.inl hc)

/-- It is enough that the number above the checkpoint is below `2 ^ 64`. -/
theorem unwrap_returns_below (isn : WrappingInt32) {a c : Nat} (hle : a ≤ c)
    (hlo : c < a + 2 ^ 32) (top : a + 2 ^ 32 < 2 ^ 64) :
    ∃ v, unwrap (wrap a isn) isn c = .ok v := by
  apply unwrap_reaches
  rw [offset_wrap]
  omega

/-- From the last block, or beyond, the search comes back to the offset itself, and then
goes round. -/
theorem climb_high {c tmp : Nat} (n : Nat) (hle : tmp ≤ c) (htop : 2 ^ 64 ≤ tmp + 2 ^ 32) :
    Exec.loop .spins (climb c) n tmp = .error .spins := by
  cases n with
  | zero => rfl
  | succ n =>
    obtain ⟨u, hu⟩ : ∃ u, (tmp + 2 ^ 32) % 2 ^ 64 = u := ⟨_, rfl⟩
    simp only [Exec.loop, climb, hle, ↓reduceIte, hu]
    exact climb_spins (x := tmp % 2 ^ 32) (by omega) n u (by omega) (by omega)

/-- A checkpoint in the last block leaves only the numbers above it in reach. -/
theorem unwrap_high {n isn : WrappingInt32} {c v : Nat} (hc : 2 ^ 64 ≤ c + 2 ^ 32)
    (h : unwrap n isn c = .ok v) : c % 2 ^ 32 < offset n isn := by
  have hx := offset_lt n isn
  apply Nat.lt_of_not_le
  intro hle
  simp only [unwrap, sub_eq_offset, block_or hx] at h
  rw [if_neg (by omega)] at h
  obtain ⟨w, hw, -⟩ := Exec.bind_eq_ok.mp h
  rw [climb_high _ (by omega) (by omega)] at hw
  cases hw

/-- **When `unwrap` returns.** Below the last block of the 64-bit range it always does; with
the checkpoint `c` there, exactly when the offset of `n` is above the low half of `c`.
Otherwise no number of rounds brings the loop to its end. -/
theorem unwrap_returns_iff (n isn : WrappingInt32) (c : Nat) :
    ((∃ v, unwrap n isn c = .ok v) ↔ c + 2 ^ 32 < 2 ^ 64 ∨ c % 2 ^ 32 < offset n isn) ∧
    (¬ (∃ v, unwrap n isn c = .ok v) → offset n isn < c ∧ ∀ rounds,
      Exec.loop .spins (climb c) rounds (offset n isn ||| c >>> 32 <<< 32) = .error .spins) := by
  have hx := offset_lt n isn
  have hiff : (∃ v, unwrap n isn c = .ok v) ↔
      c + 2 ^ 32 < 2 ^ 64 ∨ c % 2 ^ 32 < offset n isn := by
    constructor
    · rintro ⟨v, hv⟩
      by_cases hc : c + 2 ^ 32 < 2 ^ 64
      · exact .inl hc
      · exact .inr (unwrap_high (by omega) hv)
    · exact unwrap_reaches n isn
  refine ⟨hiff, ?_⟩
  intro hnone
  rw [hiff] at hnone
  refine ⟨by omega, ?_⟩
  intro rounds
  rw [block_or hx]
  exact climb_high rounds (by omega) (by omega)

/-- From the last number of the range the initial number itself is searched for for ever. -/
theorem unwrap_from_top :
    (∀ v, unwrap ⟨0⟩ ⟨0⟩ (2 ^ 64 - 1) ≠ .ok v) ∧ ∀ rounds,
      Exec.loop .spins (climb (2 ^ 64 - 1)) rounds (0 ||| (2 ^ 64 - 1) >>> 32 <<< 32) =
        .error .spins := by
  constructor
  · intro v hv
    have hlt := unwrap_high (by decide) hv
    exact absurd hlt (by decide)
  · intro rounds
    rw [block_or (by decide)]
    exact climb_high rounds (by decide) (by decide)

/-- **Recovery.** A number less than half the range away is the one returned. -/
theorem unwrap_wrap {isn : WrappingInt32} {a c v : Nat} (hc : c < 2 ^ 64) (hlo : c < a + 2 ^ 31)
    (hhi : a ≤ c + 2 ^ 31) (h : unwrap (wrap a isn) isn c = .ok v) : v = a := by
  have hv := unwrap_ok hc h
  rw [offset_wrap] at hv
  omega

/-- Near the checkpoint the number is found, unless it is the last one before `2 ^ 64` that is
not above the checkpoint. -/
theorem unwrap_close {isn : WrappingInt32} {a c : Nat} (ha : a < 2 ^ 64) (hc : c < 2 ^ 64)
    (hlo : c < a + 2 ^ 31) (hhi : a ≤ c + 2 ^ 31) (top : a + 2 ^ 32 < 2 ^ 64 ∨ c < a) :
    unwrap (wrap a isn) isn c = .ok a := by
  obtain ⟨v, hv⟩ : ∃ v, unwrap (wrap a isn) isn c = .ok v := by
    apply unwrap_reaches
    rw [offset_wrap]
    omega
  rw [hv, unwrap_wrap hc hlo hhi hv]

theorem unwrap_recent {isn : WrappingInt32} {a c : Nat} (hle : a ≤ c) (hlo : c < a + 2 ^ 31)
    (top : a + 2 ^ 32 < 2 ^ 64) : unwrap (wrap a isn) isn c = .ok a :=
  unwrap_close (by omega) (by omega) hlo (by omega) (.inl top)

/-- A checkpoint in the first half of the first block leaves the offset as it is. -/
theorem unwrap_low (n isn : WrappingInt32) {c : Nat} (hc : c < 2 ^ 31) :
    unwrap n isn c = .ok (offset n isn) := by
  have hx := offset_lt n isn
  obtain ⟨v, hv⟩ := unwrap_returns n isn (c := c) (by omega)
  obtain ⟨h1, h2⟩ := unwrap_ok (by omega) hv
  rw [hv]
  congr 1
  omega

/-- **The closest number.** Away from the top of the 64-bit range `unwrap` returns a number
that wraps to `n`, none that does is closer to the checkpoint, and of two as close it is the
larger. So every number within half the range of the checkpoint is recovered. -/
theorem unwrap_closest (n isn : WrappingInt32) (c : Nat) (hc : c < 2 ^ 64 - 2 ^ 32) :
    (∃ v, unwrap n isn c = .ok v ∧ v < 2 ^ 64 ∧ wrap v isn = n ∧
      ∀ u, u < 2 ^ 64 → wrap u isn = n →
        ((v : Int) - c).natAbs ≤ ((u : Int) - c).natAbs ∧
        (((v : Int) - c).natAbs = ((u : Int) - c).natAbs → u ≤ v)) ∧
    ∀ x : Nat, ((x : Int) - c).natAbs < 2 ^ 31 → unwrap (wrap x isn) isn c = .ok x := by
  constructor
  · obtain ⟨v, hv⟩ := unwrap_returns n isn (c := c) (by omega)
    obtain ⟨hmod, hnear, htop⟩ := unwrap_near hv
    refine ⟨v, hv, (htop (by omega)).1, wrap_eq_iff.mpr hmod, ?_⟩
    intro u _ hu
    -- both have the same low half, so they differ by a multiple of the range
    have hsame := wrap_eq_iff.mp hu
    omega
  · intro x hx
    exact unwrap_close (by omega) (by omega) (by omega) (by omega) (by omega)

/-- Two below three times the range, from three times the range. -/
theorem unwrap_closest_below :
    wrap 12884901886 ⟨0⟩ = ⟨4294967294⟩ ∧
      unwrap ⟨4294967294⟩ ⟨0⟩ 12884901888 = .ok 12884901886 := by
  have hwrap : wrap 12884901886 ⟨0⟩ = ⟨4294967294⟩ := by decide
  obtain ⟨-, hnear⟩ := unwrap_closest ⟨4294967294⟩ ⟨0⟩ 12884901888 (by decide)
  have h := hnear 12884901886 (by decide)
  rw [hwrap] at h
  exact ⟨hwrap, h⟩

end Sponge
