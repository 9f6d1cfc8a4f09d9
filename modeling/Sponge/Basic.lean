/-!
# Bytes and faults

What every module of the stack shares: bytes, and the ways a call can fail to
return. A subscript outside its container is undefined behaviour in the source;
here it is a fault, so that nothing is claimed of the state after it.
-/

namespace Sponge

abbrev Byte := UInt8

inductive Fault
  /-- A subscript, or a front, outside the container. -/
  | outOfRange
  /-- A loop that never exits. -/
  | spins
  /-- An exception, with its text. -/
  | throws (what : String)
  deriving DecidableEq, Repr

/-- `xs[i]`, and `xs.front()` at 0. -/
def subscript {α : Type} (xs : List α) (i : Nat) : Except Fault α :=
  match xs[i]? with
  | some x => .ok x
  | none => .error .outOfRange

/-- `s[i]` of a string, which also has a terminating zero at its length. -/
def charAt (s : List Byte) (i : Nat) : Except Fault Byte := subscript (s ++ [0]) i

theorem subscript_some {α : Type} {xs : List α} {i : Nat} {x : α} (h : xs[i]? = some x) :
    subscript xs i = .ok x := by
  simp only [subscript, h]

theorem subscript_ok {α : Type} {xs : List α} {i : Nat} {x : α} (h : subscript xs i = .ok x) :
    xs[i]? = some x := by
  unfold subscript at h
  split at h
  · rename_i y hy
    cases h
    exact hy
  · cases h

theorem charAt_some {s : List Byte} {i : Nat} {c : Byte} (h : s[i]? = some c) :
    charAt s i = .ok c := by
  apply subscript_some
  rw [List.getElem?_append_left (List.getElem?_eq_some_iff.mp h).1, h]

theorem forall_mem_snoc {α : Type} {P : α → Prop} {xs : List α} {x : α} (h : ∀ y ∈ xs, P y)
    (hx : P x) : ∀ y ∈ xs ++ [x], P y :=
  List.forall_mem_append.mpr ⟨h, List.forall_mem_singleton.mpr hx⟩

end Sponge
