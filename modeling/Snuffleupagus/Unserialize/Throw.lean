import Snuffleupagus.Unserialize.Integrity

/-! # `serialize` that throws

PHP's own `serialize` runs code of the objects in its argument, at any depth. If that throws there is
nothing to return: the exception is pending, and the return value is the null value PHP has put there
before the call. `sp_serialize` takes the return value for a string in any case (`serialize_kept_iff`). -/

namespace Snuffleupagus.Unserialize.Throw

open Snuffleupagus.Lib.Effect Snuffleupagus.Lib.Table
open Snuffleupagus.Php.Bytes Snuffleupagus.Php.Value Snuffleupagus.Php.Engine
open Snuffleupagus.Config.Rule Snuffleupagus.Log Snuffleupagus.Hook.Table
open Snuffleupagus.Unserialize.Hmac Snuffleupagus.Unserialize.Handler Snuffleupagus.Unserialize.Integrity

/-- What a PHP function leaves behind: its return value, and the object that has been thrown. -/
structure Returned where
  returnValue : Zval := .null
  exception : Option ℕ := none

/-- `Z_STRVAL_P` and `Z_STRLEN_P`: what is no string has neither. -/
def zStrP : Zval → Sp ZendString
  | .string s => pure s
  | _ => abort .outOfBounds

variable (w : World) (g : SpGlobals) (h : Hooks) (ops : Option Sha256) (php : Zval → Returned)

/-- What PHP's `serialize` leaves when it is called through the table of saved handlers. -/
def origSerialize (value : Zval) : Returned :=
  match (h.saved .spInternalFunctionsHook).find? (zstr "serialize") with
  | some _ => php value
  | none => {}

/-- `sp_serialize`, of a value. -/
def spSerializeValue (value : Zval) : Sp Returned :=
  let ret := origSerialize h php value
  if !g.unserialize.enable then pure ret
  else do
    let returnValue ← zStrP ret.returnValue
    let signed ← spSerialize w g ops returnValue
    pure { ret with returnValue := .string signed }

/-- **What should become of the return value**: a string is signed, and what is no string is left as it
is, with the exception. -/
def Kept (value : Zval) : Prop :=
  match (origSerialize h php value).returnValue with
  | .string s => spSerializeValue w g h ops php value =
      (fun signed => { origSerialize h php value with returnValue := .string signed }) <$> spSerialize w g ops s
  | _ => Yields (spSerializeValue w g h ops php value) (origSerialize h php value)

variable {w g h ops php}

theorem spSerializeValue_string {value : Zval} {s : ZendString}
    (hs : (origSerialize h php value).returnValue = .string s) : spSerializeValue w g h ops php value =
      (fun signed => { origSerialize h php value with returnValue := .string signed }) <$>
        spSerialize w g ops s := by
  unfold spSerializeValue
  generalize origSerialize h php value = ret at hs ⊢
  obtain ⟨_, exception⟩ := ret
  cases hs
  cases he : g.unserialize.enable with
  | true => rfl
  | false =>
    have hunsigned : spSerialize w g ops s = pure s := by
      unfold spSerialize
      rw [he]
      rfl
    rw [hunsigned]
    rfl

theorem out_zStrP {v : Zval} (hv : ∀ s, v ≠ .string s) : (zStrP v).out = .error .outOfBounds := by
  cases v with
  | string s => exact absurd rfl (hv s)
  | _ => rfl

/-- What is no string is read as one. -/
theorem out_spSerializeValue {value : Zval} (he : g.unserialize.enable = true)
    (hs : ∀ s, (origSerialize h php value).returnValue ≠ .string s) :
    (spSerializeValue w g h ops php value).out = .error .outOfBounds := by
  unfold spSerializeValue
  rw [he, Bool.not_true, if_neg Bool.false_ne_true, out_bind, out_zStrP hs]
  rfl

/-- **The return value is kept if it is a string**, or if nothing is signed. -/
theorem serialize_kept_iff (value : Zval) : Kept w g h ops php value ↔
    g.unserialize.enable = false ∨ ∃ s, (origSerialize h php value).returnValue = .string s := by
  by_cases hs : ∃ s, (origSerialize h php value).returnValue = .string s
  · obtain ⟨s, hs⟩ := hs
    refine iff_of_true ?_ (Or.inr ⟨s, hs⟩)
    unfold Kept
    rw [hs]
    exact spSerializeValue_string hs
  · have hne : ∀ s, (origSerialize h php value).returnValue ≠ .string s := fun s h => hs ⟨s, h⟩
    have hkept : Kept w g h ops php value ↔
        Yields (spSerializeValue w g h ops php value) (origSerialize h php value) := by
      unfold Kept
      cases hv : (origSerialize h php value).returnValue with
      | string s => exact absurd hv (hne s)
      | _ => exact Iff.rfl
    rw [hkept, or_iff_left hs]
    cases he : g.unserialize.enable with
    | false =>
      refine iff_of_true ?_ rfl
      unfold spSerializeValue
      rw [he]
      exact yields_pure.mpr rfl
    | true =>
      refine iff_of_false (fun hy => ?_) nofun
      unfold Yields at hy
      rw [out_spSerializeValue he hne] at hy
      cases hy

/-- `serialize` on strings and objects: a closure is an object, and not serializable. -/
def samplePhp : Zval → Returned
  | .object handle => { exception := some handle }
  | _ => { returnValue := .string (zstr "N;") }

/-- A function table with `serialize` alone. -/
def serializeHooks : Hooks where
  functionTable := ⟨⟨[(zstr "serialize", ⟨.internal, .php 0⟩)], by decide⟩, by decide⟩

/-- `serialize(function () {});` with the hook on `serialize`: the null value is read as a string. -/
theorem closure_not_kept :
    (loadSerialize (.empty 80000) sampleGlobals serializeHooks).functionTable.handlerOf (zstr "serialize") =
        some .spSerialize ∧
      origSerialize (loadSerialize (.empty 80000) sampleGlobals serializeHooks) samplePhp (.object 7) =
        { returnValue := .null, exception := some 7 } ∧
      ¬ Kept (.empty 80000) sampleGlobals (loadSerialize (.empty 80000) sampleGlobals serializeHooks)
        (some sampleSha) samplePhp (.object 7) := by
  refine ⟨rfl, rfl, fun hkept => ?_⟩
  have hy : Except.error Abort.outOfBounds = Except.ok (_ : Returned) := hkept
  cases hy

end Snuffleupagus.Unserialize.Throw
