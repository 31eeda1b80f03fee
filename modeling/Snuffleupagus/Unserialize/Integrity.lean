import Snuffleupagus.Unserialize.Handler

/-! # Integrity of serialized strings

`AuthenticInput g sha buf` says that the string ends with its own HMAC under the secret key.

* `unserialize_serialize`: with a key, what `serialize` returns comes back, and nothing else that is
  not authentic passes;
* `guarded_iff`: the configurations with `unserialize_hmac` under which no other string reaches PHP's
  unserializer. The hook is missing without a key, and `unserialize_noclass` returns before the
  check. -/

namespace Snuffleupagus.Unserialize.Integrity

open Snuffleupagus.Lib.Effect Snuffleupagus.Lib.SuffixTag
open Snuffleupagus.Php.Bytes Snuffleupagus.Php.Value Snuffleupagus.Php.Engine
open Snuffleupagus.Config.Rule Snuffleupagus.Log Snuffleupagus.Hook.Table
open Snuffleupagus.Unserialize.Hmac Snuffleupagus.Unserialize.Handler

variable {w : World} {g : SpGlobals} {h : Hooks} {sha : Sha256}

/-! ### A sample -/

/-- The key of the sample, brought to a block and xored with a padding byte. -/
def samplePad (c : UInt8) : ZendString := (zstr "0123456789" ++ List.replicate 54 0).map (· ^^^ c)

/-- SHA-256 as far as the HMAC of `N;` under the key `0123456789` needs it: its two values. -/
def sampleSha : Sha256 where
  hash m :=
    if m = samplePad 0x5C ++ [119, 72, 108, 103, 247, 88, 157, 69, 252, 58, 143, 147, 248, 15, 2, 162,
        47, 56, 32, 132, 245, 64, 76, 180, 166, 139, 48, 143, 247, 45, 66, 175] then
      [178, 214, 225, 11, 37, 92, 56, 168, 144, 102, 220, 46, 0, 84, 71, 137,
        182, 102, 176, 159, 22, 82, 73, 156, 19, 147, 136, 70, 184, 201, 80, 92]
    else
      [119, 72, 108, 103, 247, 88, 157, 69, 252, 58, 143, 147, 248, 15, 2, 162,
        47, 56, 32, 132, 245, 64, 76, 180, 166, 139, 48, 143, 247, 45, 66, 175]
  length_hash m := by split_ifs <;> rfl

/-- A function table with `unserialize` alone. -/
def sampleHooks : Hooks where
  functionTable := ⟨⟨[(zstr "unserialize", ⟨.internal, .php 0⟩)], by decide⟩, by decide⟩

/-- `sp.global.secret_key("0123456789"); sp.unserialize_hmac.enable();` -/
def sampleGlobals : SpGlobals where
  encryptionKey := some (zstr "0123456789")
  unserialize := { enable := true }

/-! ### The round trip -/

/-- **What `serialize` returns comes back, and only what is authenticated passes.** A `zend_string`
has a length below `2 ^ 64 - 64`; a longer one would be refused by the overflow check. -/
theorem unserialize_serialize {key : ZendString} (hv : 80300 ≤ w.phpVersionId)
    (he : g.unserialize.enable = true) (hn : g.unserializeNoclass.enable = false)
    (hk : g.encryptionKey = some key) :
    (∀ s, s.length + 64 < 2 ^ 64 →
      (spSerialize w g (some sha) s).out = .ok (s ++ hmac sha key s)) ∧
    (∀ s m opts, (spSerialize w g (some sha) s).out = .ok m →
      spUnserialize w g h (some sha) m opts = pure (some ⟨s, opts⟩)) ∧
    (g.unserialize.simulation = false → ∀ m opts,
      (∀ p, (spUnserialize w g h (some sha) m opts).out = .ok p →
        ∃ s, m = s ++ hmac sha key s ∧ p = some ⟨s, opts⟩) ∧
      ((¬ ∃ s, m = s ++ hmac sha key s) →
        (spUnserialize w g h (some sha) m opts).out = .error .drop)) := by
  have hun : ∀ m opts, spUnserialize w g h (some sha) m opts = checkHmac w g h (some sha) m opts := by
    intro m opts
    unfold spUnserialize
    rw [hn]
    rfl
  have hpass : ∀ s opts, checkHmac w g h (some sha) (stamp (hmac sha key) s) opts =
      pure (some ⟨s, opts⟩) := by
    intro s opts
    have hb : body 64 (stamp (hmac sha key) s) = s := body_stamp (length_hmac key) s
    unfold body at hb
    rw [checkHmac_authentic hk (authentic_stamp (length_hmac key) s), origUnserialize, if_pos hv, hb]
  refine ⟨fun s hs => ?_, fun s m opts hm => ?_, fun hs m opts => ⟨fun p hp => ?_, fun hne => ?_⟩⟩
  · rw [out_spSerialize he hk, if_neg (by omega)]
    rfl
  · rw [out_spSerialize he hk] at hm
    split_ifs at hm
    cases hm
    rw [hun, hpass]
  · by_cases ha : Authentic 64 (hmac sha key) m
    · obtain ⟨s, rfl⟩ := (authentic_iff_stamped (length_hmac key)).mp ha
      rw [hun, hpass] at hp
      cases hp
      exact ⟨s, rfl, rfl⟩
    · rw [hun, out_checkHmac_not_authentic hs hk ha] at hp
      cases hp
  · rw [hun, out_checkHmac_not_authentic hs hk]
    rwa [authentic_iff_stamped (length_hmac key)]

theorem unserialize_serialize_sample : spUnserialize (World.empty 80300) sampleGlobals sampleHooks
      (some sampleSha)
      (zstr "N;b2d6e10b255c38a89066dc2e00544789b666b09f1652499c13938846b8c9505c") none =
      pure (some ⟨zstr "N;", none⟩) :=
  (unserialize_serialize (by decide) rfl rfl rfl).2.1 (zstr "N;") _ none (by rfl)

/-! ### Which configurations guard `unserialize` -/

/-- The last 64 bytes are the HMAC under the secret key of all the bytes before them. -/
def AuthenticInput (g : SpGlobals) (sha : Sha256) (buf : ZendString) : Prop :=
  ∃ key, g.encryptionKey = some key ∧ Authentic 64 (hmac sha key) buf

/-- **The configuration guards `unserialize`**: only authentic strings reach PHP's unserializer, every
other one ends in a drop. -/
def Guarded (w : World) (g : SpGlobals) (h : Hooks) (sha : Sha256) : Prop :=
  ∀ buf opts,
    (∀ p, (callUnserialize w g (loadSerialize w g h) (some sha) buf opts).out = .ok (some p) →
      AuthenticInput g sha buf) ∧
    (¬ AuthenticInput g sha buf →
      (callUnserialize w g (loadSerialize w g h) (some sha) buf opts).out = .error .drop)

theorem not_authenticInput_nil : ¬ AuthenticInput g sha [] := by
  rintro ⟨key, -, ha⟩
  exact not_authentic_of_short (by decide) ha

/-- A configuration that hands the empty string on guards nothing. -/
theorem not_guarded_of_nil (p : PhpUnserialize)
    (hp : (callUnserialize w g (loadSerialize w g h) (some sha) [] none).out = .ok (some p)) :
    ¬ Guarded w g h sha :=
  fun hg => not_authenticInput_nil ((hg [] none).1 p hp)

/-- If what is not authentic is dropped, then what gets through is authentic. -/
theorem guarded_of_drop (hd : ∀ buf opts, ¬ AuthenticInput g sha buf →
    (callUnserialize w g (loadSerialize w g h) (some sha) buf opts).out = .error .drop) :
    Guarded w g h sha := by
  refine fun buf opts => ⟨fun p hp => ?_, hd buf opts⟩
  by_contra ha
  rw [hd buf opts ha] at hp
  cases hp

/-- **When `unserialize` is guarded.** With `unserialize_hmac` on and not in simulation: if there is a
key or `unserialize_noclass` installs the hook, and `unserialize_noclass` does not return early. -/
theorem guarded_iff {n : ℕ}
    (hf : h.functionTable.find? (zstr "unserialize") = some ⟨.internal, .php n⟩)
    (he : g.unserialize.enable = true) (hs : g.unserialize.simulation = false) :
    Guarded w g h sha ↔
      (g.encryptionKey.isSome = true ∨ g.unserializeNoclass.enable = true) ∧
      (g.unserializeNoclass.enable = true → w.phpVersionId ≤ 80000) := by
  have hi : h.functionTable.typeOf (zstr "unserialize") = some .internal := by
    simp [FunctionTable.typeOf, hf]
  have hh := handlerOf_loadSerialize w g h hi
  rw [he, Bool.and_true] at hh
  cases hn : g.unserializeNoclass.enable with
  | true =>
    rw [hn, Bool.or_true, if_pos rfl] at hh
    by_cases hv : 80000 < w.phpVersionId
    · refine iff_of_false (not_guarded_of_nil ⟨[], some [(.str (zstr "allowed_classes"), .false)]⟩ ?_)
        fun hc => absurd (hc.2 rfl) (by omega)
      unfold callUnserialize spUnserialize
      rw [hh]
      simp [hn, hv]
    · refine iff_of_true (guarded_of_drop fun buf opts _ => ?_) ⟨Or.inr rfl, fun _ => by omega⟩
      unfold callUnserialize spUnserialize
      rw [hh]
      simp [hn, hv]
  | false =>
    cases hk : g.encryptionKey with
    | none =>
      rw [hn, hk, if_neg (by decide)] at hh
      refine iff_of_false (not_guarded_of_nil ⟨[], none⟩ ?_) (by simp)
      unfold callUnserialize
      rw [hh, FunctionTable.handlerOf, hf]
      rfl
    | some key =>
      rw [hn, hk, if_pos (by rfl)] at hh
      refine iff_of_true (guarded_of_drop fun buf opts ha => ?_) (by simp)
      unfold callUnserialize spUnserialize
      rw [hh, hn]
      exact out_checkHmac_not_authentic hs hk fun ha' => ha ⟨key, hk, ha'⟩

theorem guarded_iff_sample : Guarded (World.empty 80300) sampleGlobals sampleHooks sampleSha ↔
    (sampleGlobals.encryptionKey.isSome = true ∨ sampleGlobals.unserializeNoclass.enable = true) ∧
    (sampleGlobals.unserializeNoclass.enable = true → (80300 : ℕ) ≤ 80000) :=
  guarded_iff (by rfl) rfl rfl

/-- Without a key nothing is hooked; with `unserialize_noclass` the check is skipped. -/
theorem not_guarded_samples :
    ¬ Guarded (World.empty 80300) { unserialize := { enable := true } } sampleHooks sampleSha ∧
    ¬ Guarded (World.empty 80300) { sampleGlobals with unserializeNoclass := { enable := true } }
      sampleHooks sampleSha :=
  ⟨not_guarded_of_nil ⟨[], none⟩ (by rfl),
    not_guarded_of_nil ⟨[], some [(.str (zstr "allowed_classes"), .false)]⟩ (by rfl)⟩

end Snuffleupagus.Unserialize.Integrity
