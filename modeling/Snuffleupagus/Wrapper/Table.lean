import Snuffleupagus.Log

/-! # The table of stream wrappers

PHP keeps the wrappers of streams in one table for the whole process. With a whitelist the module takes
all other wrappers out of it when a request starts; with a list of streams it puts a wrapper of its own
in the place of `php`, which looks at the list whenever a stream is opened.

* `find?_spDisableWrapper`: what is left of the table;
* `find?_spReregisterPhpWrapper`: whose wrapper `php` is. -/

namespace Snuffleupagus.Wrapper.Table

open Snuffleupagus.Lib.Effect Snuffleupagus.Lib.Table Snuffleupagus.Php.Bytes Snuffleupagus.Php.Engine
open Snuffleupagus.Config.Rule Snuffleupagus.Log

/-- A stream wrapper: one of PHP or of an extension, or the one of the module for `php`. -/
inductive StreamWrapper
  | php (id : ℕ)
  | spPhp
  deriving DecidableEq

/-- `url_stream_wrappers_hash`. -/
abbrev StreamWrappers := OrdTable ZendString StreamWrapper

variable (w : World) (g : SpGlobals)

/-- `wrapper_is_whitelisted`. -/
def wrapperIsWhitelisted (zs : ZendString) : Bool := g.wrapper.whitelist.any fun s => equalsCi zs s

/-- `sp_php_stream_is_filtered`. -/
def spPhpStreamIsFiltered : Bool := !g.wrapper.phpStreamAllowlist.isEmpty

/-- `sp_php_stream_is_whitelisted`. -/
def spPhpStreamIsWhitelisted (kind : ZendString) : Bool :=
  g.wrapper.phpStreamAllowlist.any fun s => equalsCi kind (cstr s)

/-- `sp_reregister_php_wrapper`. -/
def spReregisterPhpWrapper (t : StreamWrappers) : Sp StreamWrappers :=
  if !spPhpStreamIsFiltered g then pure t
  else
    match t.find? (zstr "php") with
    | none => do
      spLogWarn w g "wrappers_whitelist" "Failed to unregister stream wrapper \"php\"" []
      pure t
    | some _ => pure ((t.erase (zstr "php")).insert (zstr "php") .spPhp)

/-- `sp_disable_wrapper`, on the table. -/
def spDisableWrapper (t : StreamWrappers) : StreamWrappers :=
  ⟨t.entries.filter fun e => wrapperIsWhitelisted g e.1,
    t.nodup.sublist ((List.filter_sublist (l := t.entries)).map Prod.fst)⟩

/-- A prefix, as `strncasecmp` compares it. -/
def hasPrefixCi (p s : ZendString) : Bool := equalsCi (s.take p.length) p

/-- The kinds of streams `php` has: the beginning of the path or the whole of it, and the name in the
list. -/
def phpStreamKind (path : ZendString) : Option ZendString :=
  if hasPrefixCi (zstr "temp") path then some (zstr "temp")
  else if equalsCi path (zstr "memory") then some (zstr "memory")
  else if equalsCi path (zstr "output") then some (zstr "output")
  else if equalsCi path (zstr "input") then some (zstr "input")
  else if equalsCi path (zstr "stdin") then some (zstr "stdin")
  else if equalsCi path (zstr "stdout") then some (zstr "stdout")
  else if equalsCi path (zstr "stderr") then some (zstr "stderr")
  else if hasPrefixCi (zstr "fd/") path then some (zstr "fd")
  else if hasPrefixCi (zstr "filter/") path then some (zstr "filter")
  else none

/-- Does `sp_php_stream_url_wrap_php` open the stream, by the opener of PHP? -/
def spPhpStreamUrlWrapPhp (path : ZendString) : Sp Bool :=
  if !spPhpStreamIsFiltered g then pure true
  else
    let path := if hasPrefixCi (zstr "php://") (cstr path) then (cstr path).drop 6 else cstr path
    match phpStreamKind path with
    | none => do
      spLogWarn w g "wrappers_whitelist" "Call to unknown php stream type dropped" []
      pure false
    | some kind =>
      if spPhpStreamIsWhitelisted g kind then pure true
      else do
        spLogWarn w g "wrappers_whitelist" "Call to not allowed php stream type \"%s\" dropped" [kind]
        pure false

/-! ### What is left of the table -/

section Lemmas
variable {w g} {t t' : StreamWrappers} {k : ZendString}

/-- **The wrappers on the whitelist are left.** -/
theorem find?_spDisableWrapper : (spDisableWrapper g t).find? k =
    if wrapperIsWhitelisted g k then t.find? k else none := OrdTable.lookup_filter_key _ _ _

/-- **With a list of streams `php` is the wrapper of the module**, if there is one. -/
theorem find?_spReregisterPhpWrapper (hy : Yields (spReregisterPhpWrapper w g t) t') : t'.find? k =
    if spPhpStreamIsFiltered g ∧ k = zstr "php" then (t.find? k).map fun _ => .spPhp else t.find? k := by
  unfold spReregisterPhpWrapper at hy
  cases hf : spPhpStreamIsFiltered g with
  | false =>
    rw [hf] at hy
    cases yields_pure.mp hy
    simp
  | true =>
    rw [hf] at hy
    simp only [Bool.not_true, Bool.false_eq_true, if_false] at hy
    cases hp : t.find? (zstr "php") with
    | none =>
      rw [hp] at hy
      obtain ⟨u, -, hy⟩ := yields_bind.mp hy
      cases yields_pure.mp hy
      by_cases hk : k = zstr "php"
      · subst hk; simp [hp]
      · simp [hk]
    | some s =>
      rw [hp] at hy
      cases yields_pure.mp hy
      rw [OrdTable.find?_insert, OrdTable.find?_erase]
      by_cases hk : k = zstr "php"
      · subst hk; simp [hp]
      · simp [hk, Ne.symm hk]

theorem exists_yields_spReregisterPhpWrapper (t : StreamWrappers) :
    ∃ t', Yields (spReregisterPhpWrapper w g t) t' := by
  unfold spReregisterPhpWrapper
  split_ifs
  · exact ⟨t, yields_pure.mpr rfl⟩
  · cases t.find? (zstr "php") with
    | none => exact ⟨t, yields_bind.mpr ⟨(), out_spLogWarn w g _ _ _, yields_pure.mpr rfl⟩⟩
    | some s => exact ⟨_, yields_pure.mpr rfl⟩

end Lemmas

end Snuffleupagus.Wrapper.Table
