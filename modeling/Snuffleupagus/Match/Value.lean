import Snuffleupagus.Log

/-! # Matching values

What a filter on a value looks at is a string: that of a scalar, or those of the elements of an array
at any depth, or the keys of an array. A string is compared with the string of the rule, or else
matched with its regular expression; without either it matches.

No function here looks behind a reference: `sp_zval_to_zend_string` makes it the empty string. -/

namespace Snuffleupagus.Match.Value

open Snuffleupagus.Lib.Effect Snuffleupagus.Php.Bytes Snuffleupagus.Php.Value Snuffleupagus.Php.Engine
open Snuffleupagus.Config.Rule Snuffleupagus.Log

variable (w : World) (g : SpGlobals)

/-- `sp_is_regexp_matching_len`; `-1` is `PCRE2_ERROR_NOMATCH`. -/
def spIsRegexpMatchingLen (regexp : SpRegexp) (s : ZendString) : Sp Bool :=
  let ret := w.pcreExec regexp.pattern s
  if ret < 0 then
    if ret ≠ -1 then do
      spLogErr w g "regexp" "Something went wrong with a regexp (%d)." [decimalInt ret]
      pure false
    else pure false
  else pure true

/-- `sp_is_regexp_matching`: the subject is a C string. -/
def spIsRegexpMatching (regexp : SpRegexp) (s : ZendString) : Sp Bool :=
  spIsRegexpMatchingLen w g regexp (cstr s)

/-- `sp_zval_to_zend_string`. -/
def spZvalToZendString : Zval → ZendString
  | .long n => decimalInt n
  | .double bits => w.printDouble bits
  | .string s => s
  | .false => zstr "FALSE"
  | .true => zstr "TRUE"
  | .null => zstr "NULL"
  | .object _ => zstr "OBJECT"
  | .array _ => zstr "ARRAY"
  | .resource _ => zstr "RESOURCE"
  | _ => []

/-- `sp_match_value`. -/
def spMatchValue (value : ZendString) (toMatch : Option ZendString) (rx : Option SpRegexp) : Sp Bool :=
  match toMatch with
  | some s => pure (s == value)
  | none =>
    match rx with
    | some rx => spIsRegexpMatchingLen w g rx value
    | none => pure true

/-- The string a key is compared as. -/
def keyString : HashKey → ZendString
  | .str s => s
  | .idx i => decimal i.toNat

variable (toMatch : Option ZendString) (rx : Option SpRegexp)

/-- `sp_match_array_key`. -/
def spMatchArrayKey : HashTable → Sp Bool
  | [] => pure false
  | (k, _) :: ht => do
    if ← spMatchValue w g (keyString k) toMatch rx then pure true else spMatchArrayKey ht

mutual

/-- `sp_match_array_value`. -/
def spMatchArrayValue : HashTable → Sp Bool
  | [] => pure false
  | (_, v) :: ht => do
    if ← spMatchElement v then pure true else spMatchArrayValue ht

/-- One element: an array is searched in turn. -/
def spMatchElement : Zval → Sp Bool
  | .array ht => spMatchArrayValue ht
  | v => spMatchValue w g (spZvalToZendString w v) toMatch rx

end

/-! ### How matching ends -/

section Avoids
variable {w g} {e : Abort}

/-- A match ends a request for no other reasons than a line of the log does. -/
theorem avoids_spMatchValue (hd : e ≠ .drop) (he : e ≠ .error) (value : ZendString)
    (toMatch : Option ZendString) (rx : Option SpRegexp) : Avoids e (spMatchValue w g value toMatch rx) := by
  unfold spMatchValue spIsRegexpMatchingLen
  cases toMatch with
  | some s => exact avoids_pure _
  | none =>
    cases rx with
    | none => exact avoids_pure _
    | some rx =>
      dsimp only
      split_ifs
      · exact (avoids_spLogMsgf _ _ hd he _ _ _ _ _).bind fun _ => avoids_pure _
      · exact avoids_pure _
      · exact avoids_pure _

theorem avoids_spMatchArrayKey (hd : e ≠ .drop) (he : e ≠ .error) (toMatch : Option ZendString)
    (rx : Option SpRegexp) : ∀ ht : HashTable, Avoids e (spMatchArrayKey w g toMatch rx ht)
  | [] => avoids_pure _
  | (k, _) :: ht => by
    refine (avoids_spMatchValue hd he (keyString k) toMatch rx).bind fun b => ?_
    cases b with
    | true => exact avoids_pure _
    | false => exact avoids_spMatchArrayKey hd he toMatch rx ht

mutual

theorem avoids_spMatchArrayValue (hd : e ≠ .drop) (he : e ≠ .error) (toMatch : Option ZendString)
    (rx : Option SpRegexp) : ∀ ht : HashTable, Avoids e (spMatchArrayValue w g toMatch rx ht)
  | [] => avoids_pure _
  | (_, v) :: ht => by
    refine (avoids_spMatchElement hd he toMatch rx v).bind fun b => ?_
    cases b with
    | true => exact avoids_pure _
    | false => exact avoids_spMatchArrayValue hd he toMatch rx ht

theorem avoids_spMatchElement (hd : e ≠ .drop) (he : e ≠ .error) (toMatch : Option ZendString)
    (rx : Option SpRegexp) : ∀ v : Zval, Avoids e (spMatchElement w g toMatch rx v)
  | .array ht => by
    unfold spMatchElement
    exact avoids_spMatchArrayValue hd he toMatch rx ht
  | .undef | .null | .false | .true | .long _ | .double _ | .string _ | .object _ | .resource _ | .reference _
  | .indirect _ | .ptr _ => by
    unfold spMatchElement
    exact avoids_spMatchValue hd he _ toMatch rx

end

end Avoids

end Snuffleupagus.Match.Value
