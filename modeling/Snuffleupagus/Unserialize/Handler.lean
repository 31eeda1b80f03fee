import Snuffleupagus.Hook.Table
import Snuffleupagus.Unserialize.Hmac

/-! # `serialize` and `unserialize`

With `unserialize_hmac` the module appends the HMAC of what `serialize` returns, and `unserialize`
splits it off again and checks it before PHP's own unserializer sees the string. The model of
`sp_unserialize` ends with the call of that unserializer, if there is one.

* `out_spSerialize`: what `serialize` returns;
* `checkHmac_authentic`, `out_checkHmac_not_authentic`: an authentic string is handed on, and in
  earnest every other one is dropped;
* `handlerOf_loadSerialize`: whether `sp_unserialize` is installed at all. -/

namespace Snuffleupagus.Unserialize.Handler

open Snuffleupagus.Lib.Effect Snuffleupagus.Lib.SuffixTag
open Snuffleupagus.Php.Bytes Snuffleupagus.Php.Value Snuffleupagus.Php.Engine
open Snuffleupagus.Config.Rule Snuffleupagus.Log Snuffleupagus.Hook.Table
open Snuffleupagus.Unserialize.Hmac

/-- A call of PHP's unserializer: the string and the options it is given. -/
structure PhpUnserialize where
  buf : ZendString
  opts : Option HashTable

variable (w : World) (g : SpGlobals) (h : Hooks) (ops : Option Sha256)

/-- `zend_bailout`. -/
def zendBailout {α : Type} : Sp α := abort .error

/-- `sp_serialize`, from the string PHP's own `serialize` has returned. Without a key the module
dereferences a null pointer. -/
def spSerialize (returnValue : ZendString) : Sp ZendString :=
  if !g.unserialize.enable then pure returnValue
  else
    match g.encryptionKey with
    | none => abort .outOfBounds
    | some key => do
      match ← spDoHashHmacSha256 w g ops returnValue key with
      | none => zendBailout
      | some hmac =>
        let len := (returnValue.length + hmac.length) % 2 ^ 64
        if len < returnValue.length then do
          spLogErr w g "overflow_error" "Overflow tentative detected in sp_serialize." []
          zendBailout
        else pure (returnValue ++ hmac)

/-- How `sp_unserialize` calls PHP's unserializer: since PHP 8.3 on the first `len` bytes, before on
the whole string by the saved handler. -/
def origUnserialize (buf : ZendString) (len : ℕ) (opts : Option HashTable) : Option PhpUnserialize :=
  if 80300 ≤ w.phpVersionId then some ⟨buf.take len, opts⟩
  else ((h.saved .spInternalFunctionsHook).find? (zstr "unserialize")).map fun _ => ⟨buf, opts⟩

/-- The check of the HMAC, the second half of `sp_unserialize`. -/
def checkHmac (buf : ZendString) (opts : Option HashTable) : Sp (Option PhpUnserialize) :=
  if buf.length < 64 then
    if g.unserialize.simulation then do
      spLogSimulation w g "unserialize"
        "The serialized object is smaller than 64: assuming there is no HMAC" []
      pure (origUnserialize w h buf buf.length opts)
    else do
      spLogDrop w g "unserialize" "The serialized object is too small." []
      pure none
  else
    match g.encryptionKey with
    | none => abort .outOfBounds
    | some key => do
      let hmac := buf.drop (buf.length - 64)
      let serializedStr := buf.take (buf.length - 64)
      let expectedHmac ← spDoHashHmacSha256 w g ops serializedStr key
      let status : BitVec 32 := match expectedHmac with
        | some expectedHmac => hmacStatus hmac expectedHmac
        | none => 1
      if status = 0 then pure (origUnserialize w h buf (buf.length - 64) opts)
      else do
        spLogRequest g.unserialize.dump g.unserialize.textualRepresentation
        if g.unserialize.simulation then do
          spLogSimulation w g "unserialize" "Invalid HMAC for %s" [serializedStr]
          pure (origUnserialize w h buf (buf.length - 64) opts)
        else do
          spLogDrop w g "unserialize" "Invalid HMAC for %s" [serializedStr]
          pure none

/-- `sp_unserialize`. -/
def spUnserialize (buf : ZendString) (opts : Option HashTable) : Sp (Option PhpUnserialize) :=
  if g.unserializeNoclass.enable then
    if 80000 < w.phpVersionId then
      pure (some ⟨buf, some [(.str (zstr "allowed_classes"), .false)]⟩)
    else do
      spLogDrop w g "unserialize_noclass" "unserialize_noclass is only supported on PHP8+" []
      checkHmac w g h ops buf opts
  else checkHmac w g h ops buf opts

/-- `hook_serialize`. -/
def hookSerialize : Hooks :=
  (hookFunction w (zstr "unserialize") .spInternalFunctionsHook .spUnserialize
    (hookFunction w (zstr "serialize") .spInternalFunctionsHook .spSerialize h).2).2

/-- The part of `sp_load_config` that decides on `hook_serialize`. -/
def loadSerialize : Hooks :=
  if (g.encryptionKey.isSome && g.unserialize.enable) || g.unserializeNoclass.enable then
    hookSerialize w h
  else h

/-- A script calls `unserialize`: the handler in the slot runs. -/
def callUnserialize (buf : ZendString) (opts : Option HashTable) : Sp (Option PhpUnserialize) :=
  match h.functionTable.handlerOf (zstr "unserialize") with
  | some .spUnserialize => spUnserialize w g h ops buf opts
  | some _ => pure (some ⟨buf, opts⟩)
  | none => pure none

/-! ### What the handlers return -/

section Out
variable {w g h} {sha : Sha256} {key buf : ZendString} {opts : Option HashTable}

/-- **`serialize` stamps its result**, unless the length overflows. -/
theorem out_spSerialize (he : g.unserialize.enable = true) (hk : g.encryptionKey = some key)
    (s : ZendString) : (spSerialize w g (some sha) s).out =
      if (s.length + 64) % 2 ^ 64 < s.length then .error .error
      else .ok (stamp (hmac sha key) s) := by
  unfold spSerialize
  simp only [he, hk, spDoHashHmacSha256_some, pure_bind, length_hmac, Bool.not_true,
    Bool.false_eq_true, if_false]
  split_ifs with hov
  · rcases out_spLogErr w g "overflow_error" "Overflow tentative detected in sp_serialize." [] with
      hlog | hlog <;> simp [hlog, zendBailout]
  · rfl

/-- A string too short for a tag is dropped in earnest. -/
theorem out_checkHmac_short (hs : g.unserialize.simulation = false) (hl : buf.length < 64) :
    (checkHmac w g h ops buf opts).out = .error .drop := by
  unfold checkHmac
  rw [if_pos hl, hs]
  simp

/-- The comparison on a string that is long enough. -/
theorem status_eq_zero_iff (hl : 64 ≤ buf.length) :
    hmacStatus (tagPart 64 buf) (hmac sha key (body 64 buf)) = 0 ↔
      Authentic 64 (hmac sha key) buf := by
  rw [hmacStatus_eq_zero (length_tagPart hl) (length_hmac key _)]
  exact ⟨fun ht => ⟨hl, ht⟩, fun ha => ha.2⟩

/-- An authentic string is handed to PHP's unserializer, and nothing is logged. -/
theorem checkHmac_authentic (hk : g.encryptionKey = some key)
    (ha : Authentic 64 (hmac sha key) buf) :
    checkHmac w g h (some sha) buf opts = pure (origUnserialize w h buf (buf.length - 64) opts) := by
  have hz := (status_eq_zero_iff ha.1).mpr ha
  unfold tagPart body at hz
  unfold checkHmac
  rw [if_neg (Nat.not_lt.mpr ha.1), hk]
  simp only [spDoHashHmacSha256_some, pure_bind, hz, if_true]

/-- **A string that is not authentic is dropped** in earnest. -/
theorem out_checkHmac_not_authentic (hs : g.unserialize.simulation = false)
    (hk : g.encryptionKey = some key) (ha : ¬ Authentic 64 (hmac sha key) buf) :
    (checkHmac w g h (some sha) buf opts).out = .error .drop := by
  by_cases hl : buf.length < 64
  · exact out_checkHmac_short _ hs hl
  · have hz := (not_congr (status_eq_zero_iff (Nat.not_lt.mp hl))).mpr ha
    unfold tagPart body at hz
    unfold checkHmac
    rw [if_neg hl, hk]
    simp only [spDoHashHmacSha256_some, pure_bind, hz, hs, if_false]
    simp

end Out

/-! ### When the hooks are installed -/

/-- `hook_serialize` takes the place of an internal `unserialize`. -/
theorem handlerOf_hookSerialize (hi : h.functionTable.typeOf (zstr "unserialize") = some .internal) :
    (hookSerialize w h).functionTable.handlerOf (zstr "unserialize") = some .spUnserialize := by
  unfold hookSerialize
  rw [handlerOf_hookFunction, typeOf_hookFunction, if_pos ⟨Or.inl rfl, hi⟩]

/-- Without a key and without `unserialize_noclass` nothing is hooked. -/
theorem handlerOf_loadSerialize (hi : h.functionTable.typeOf (zstr "unserialize") = some .internal) :
    (loadSerialize w g h).functionTable.handlerOf (zstr "unserialize") =
      if (g.encryptionKey.isSome && g.unserialize.enable) || g.unserializeNoclass.enable then
        some .spUnserialize
      else h.functionTable.handlerOf (zstr "unserialize") := by
  unfold loadSerialize
  split_ifs
  · exact handlerOf_hookSerialize w h hi
  · rfl

end Snuffleupagus.Unserialize.Handler
