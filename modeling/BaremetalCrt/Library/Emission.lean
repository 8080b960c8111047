import BaremetalCrt.Library.Numerals
import Mathlib.Algebra.Group.Nat.Defs
import Mathlib.Data.List.Basic
import Mathlib.Logic.Function.Basic

/-!
# Handing items to a sink

A producer hands items one after the other to a sink, each with the index that is due. The sink
is a function of the item, its own state and the index; the index is a machine word and wraps
around. Two producers that hand over the same items are the same to every sink.
-/

namespace Emission

/-- The state of a sink and the index of the next item. -/
structure Cursor (w : Nat) (σ : Type) where
  sink : σ
  idx : BitVec w

variable {α σ : Type} {w : Nat}

/-- Hand over one item. -/
def emit (put : α → σ → Nat → σ) (cur : Cursor w σ) (a : α) : Cursor w σ :=
  ⟨put a cur.sink cur.idx.toNat, cur.idx + 1⟩

/-- Hand over all items of a list. -/
def emitAll (put : α → σ → Nat → σ) (cur : Cursor w σ) (items : List α) : Cursor w σ :=
  items.foldl (emit put) cur

variable {put : α → σ → Nat → σ} {cur : Cursor w σ}

@[simp]
theorem emitAll_nil : emitAll put cur [] = cur := rfl

@[simp]
theorem emitAll_cons (a : α) (items : List α) :
    emitAll put cur (a :: items) = emitAll put (emit put cur a) items := rfl

@[simp]
theorem emitAll_append (xs ys : List α) :
    emitAll put cur (xs ++ ys) = emitAll put (emitAll put cur xs) ys :=
  List.foldl_append

theorem emitAll_idx (items : List α) :
    (emitAll put cur items).idx = cur.idx + BitVec.ofNat w items.length := by
  induction items generalizing cur with
  | nil => simp
  | cons a items ih =>
      rw [emitAll_cons, ih]
      change cur.idx + 1 + BitVec.ofNat w items.length = _
      rw [List.length_cons, Nat.add_comm items.length 1, BitVec.ofNat_add, BitVec.add_assoc]
      rfl

/-- The number of items since an earlier index, as the difference of the indices. -/
theorem emitAll_idx_sub {items : List α} (h : items.length < 2 ^ w) :
    ((emitAll put cur items).idx - cur.idx).toNat = items.length := by
  rw [emitAll_idx, BitVec.add_comm, BitVec.add_sub_cancel, BitVec.toNat_ofNat, Nat.mod_eq_of_lt h]

section Bounded

end Bounded

/-- A sink that looks at the items only is a fold over them. -/
theorem emitAll_sink (step : σ → α → σ) (items : List α) {cur : Cursor w σ} :
    (emitAll (fun a s _ => step s a) cur items).sink = items.foldl step cur.sink := by
  induction items generalizing cur with
  | nil => rfl
  | cons a items ih =>
      rw [emitAll_cons, ih]
      rfl

end Emission
