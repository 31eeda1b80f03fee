import Snuffleupagus.Crypt.Separation

/-! # The arithmetic of decryption

`decrypt_zval` takes the size of the nonce, the NUL and the padding off the length of what it has decoded, and
copies between three buffers. The computation is watched here: it ends out of bounds on a difference below zero, on
a size that is no `size_t`, and on a copy that leaves a buffer. Watched so, it is still the same computation
(`decryptZvalWatched_eq`).

The length is compared with the size of the nonce alone. What is shorter than the nonce and the padding together
does not open; what is exactly as long holds an empty text without its NUL, and if this opens the length of the new
string is below zero (`decrypt_in_bounds_iff`). -/

namespace Snuffleupagus.Crypt.Bounds

open Snuffleupagus.Lib.Effect Snuffleupagus.Lib.SecretBox Snuffleupagus.Php.Bytes
open Snuffleupagus.Php.Engine Snuffleupagus.Config.Rule Snuffleupagus.Log Snuffleupagus.Crypt.Zval
open Snuffleupagus.Crypt.Separation

/-- `crypto_secretbox_open`: it fails on what is too short, and answers as many bytes as it is given. -/
structure SecretboxOpen where
  run : ZendString → ZendString → ZendString → Option ZendString
  short : ∀ nonce key box, box.length < zeroBytes → run nonce key box = none
  length : ∀ nonce key box message, run nonce key box = some message → message.length = box.length

/-- That of a secret box. -/
def SecretboxOpen.ofPrimitives (P : Primitives) : SecretboxOpen where
  run := P.open?
  short nonce key box h := by
    unfold Primitives.open?
    exact if_pos h
  length _ _ _ _ h := (Primitives.open_eq_some h).2.1

/-! ### Buffers -/

/-- A difference of two `size_t`. -/
def lenSub (a b : ℕ) : Sp ℕ := if b ≤ a then pure (a - b) else abort .outOfBounds

/-- `ecalloc(size, 1)`. -/
def ecalloc (size : ℕ) : Sp ZendString :=
  if size < 2 ^ 64 then pure (List.replicate size 0) else abort .outOfBounds

/-- Read `len` bytes of a buffer from `pos` on. -/
def readFrom (buf : ZendString) (pos len : ℕ) : Sp ZendString :=
  if pos + len ≤ buf.length then pure ((buf.drop pos).take len) else abort .outOfBounds

/-- Write to the start of a buffer. -/
def writeTo (buf src : ZendString) : Sp ZendString :=
  if src.length ≤ buf.length then pure (src ++ buf.drop src.length) else abort .outOfBounds

theorem lenSub_of_le {a b : ℕ} (h : b ≤ a) : lenSub a b = pure (a - b) := if_pos h

theorem ecalloc_of_lt {size : ℕ} (h : size < 2 ^ 64) : ecalloc size = pure (List.replicate size 0) := if_pos h

theorem readFrom_of_le {buf : ZendString} {pos len : ℕ} (h : pos + len ≤ buf.length) :
    readFrom buf pos len = pure ((buf.drop pos).take len) := if_pos h

theorem writeTo_of_le {buf src : ZendString} (h : src.length ≤ buf.length) :
    writeTo buf src = pure (src ++ buf.drop src.length) := if_pos h

/-! ### The computation -/

section Watched
variable (w : World) (g : SpGlobals) (c : Crypto) (o : SecretboxOpen)

/-- `decrypt_zval` from `generate_key` on. -/
def openWatched (value debase64 key : ZendString) (simulation : Bool) (hashKey : Option ZendString) :
    Sp (HashApply × ZendString) := do
  let decrypted ← ecalloc (debase64.length + zeroBytes)
  let backup ← ecalloc debase64.length
  let all ← readFrom debase64 0 debase64.length
  let backup ← writeTo backup all
  let boxLen ← lenSub debase64.length nonceBytes
  let box ← readFrom debase64 nonceBytes boxLen
  let nonce ← readFrom debase64 0 nonceBytes
  match o.run nonce key box with
  | none =>
    if simulation then do
      spLogSimulation w g "cookie_encryption"
        "Something went wrong with the decryption of %s. Using the cookie 'as is' instead of decrypting it"
        [decryptedName hashKey]
      let all ← readFrom backup 0 debase64.length
      let _ ← writeTo debase64 all
      pure (.keep, value)
    else do
      spLogWarn w g "cookie_encryption" "Something went wrong with the decryption of %s"
        [decryptedName hashKey]
      pure (.remove, value)
  | some message => do
    let decrypted ← writeTo decrypted message
    let len ← lenSub debase64.length nonceBytes
    let len ← lenSub len 1
    let len ← lenSub len zeroBytes
    let text ← readFrom decrypted zeroBytes len
    pure (.keep, text)

/-- `decrypt_zval`; where it returns early, nothing is computed. -/
def decryptZvalWatched (value : ZendString) (simulation : Bool) (hashKey : Option ZendString) :
    Sp (HashApply × ZendString) :=
  match c.base64.decode value with
  | none => decryptZval w g c value simulation hashKey
  | some debase64 =>
    if debase64.length < nonceBytes ∨ (debase64.length + zeroBytes) % 2 ^ 64 < debase64.length then
      decryptZval w g c value simulation hashKey
    else do
      let key ← generateKey w g c
      openWatched w g o value debase64 key simulation hashKey

end Watched

/-! ### Within the bounds -/

section Bounds
variable {w : World} {g : SpGlobals} {c : Crypto} {o : SecretboxOpen} {value debase64 key : ZendString}
  {simulation : Bool} {hashKey : Option ZendString}

/-- **What the watched computation does** with what has passed the comparisons. -/
theorem openWatched_eq (hnonce : nonceBytes ≤ debase64.length) (hsize : debase64.length + zeroBytes < 2 ^ 64) :
    openWatched w g o value debase64 key simulation hashKey =
      match o.run (debase64.take nonceBytes) key (debase64.drop nonceBytes) with
      | none =>
        if simulation then do
          spLogSimulation w g "cookie_encryption"
            "Something went wrong with the decryption of %s. Using the cookie 'as is' instead of decrypting it"
            [decryptedName hashKey]
          pure (.keep, value)
        else do
          spLogWarn w g "cookie_encryption" "Something went wrong with the decryption of %s"
            [decryptedName hashKey]
          pure (.remove, value)
      | some message =>
        if debase64.length = nonceBytes + zeroBytes then abort .outOfBounds
        else pure (.keep, (message.drop zeroBytes).take (debase64.length - nonceBytes - 1 - zeroBytes)) := by
  have hbox : (debase64.drop nonceBytes).take (debase64.length - nonceBytes) = debase64.drop nonceBytes :=
    List.take_of_length_le (by simp)
  have hlength : (debase64.drop nonceBytes).length = debase64.length - nonceBytes := List.length_drop
  unfold openWatched
  rw [ecalloc_of_lt hsize, pure_bind, ecalloc_of_lt (by omega), pure_bind, readFrom_of_le (by omega), pure_bind,
    List.drop_zero, List.take_length, writeTo_of_le (by simp), pure_bind, lenSub_of_le hnonce, pure_bind,
    readFrom_of_le (by omega), pure_bind, readFrom_of_le (by omega), pure_bind, List.drop_zero, hbox]
  cases hopen : o.run (debase64.take nonceBytes) key (debase64.drop nonceBytes) with
  | none =>
    dsimp only
    split_ifs
    · -- the copy that is put back is the text itself
      rw [readFrom_of_le (by simp), pure_bind, writeTo_of_le (by simp), pure_bind]
    · rfl
  | some message =>
    have hmessage := (o.length _ _ _ _ hopen).trans hlength
    have hlong : zeroBytes ≤ message.length := by
      by_contra hlt
      rw [o.short _ _ _ (by omega)] at hopen
      cases hopen
    have hpos : 0 < zeroBytes := by decide
    dsimp only
    rw [writeTo_of_le (by simp; omega), pure_bind, pure_bind, lenSub_of_le (by omega), pure_bind]
    split_ifs with hempty
    · -- nothing but the padding
      unfold lenSub
      rw [if_neg (by omega)]
      rfl
    · rw [lenSub_of_le (by omega), pure_bind, readFrom_of_le (by simp; omega), pure_bind]
      rw [List.drop_append_of_le_length hlong, List.take_append_of_le_length (by simp; omega)]

/-- **The watched computation is that of `decrypt_zval`.** -/
theorem decryptZvalWatched_eq : decryptZvalWatched w g c (.ofPrimitives c.nacl) value simulation hashKey =
    decryptZval w g c value simulation hashKey := by
  unfold decryptZvalWatched
  cases hd : c.base64.decode value with
  | none => rfl
  | some debase64 =>
    dsimp only
    split_ifs with hearly
    · rfl
    · obtain ⟨hnonce, hsize⟩ := not_or.mp hearly
      unfold decryptZval
      rw [hd]
      dsimp only
      rw [if_neg hnonce, if_neg hsize]
      have hlt : debase64.length + zeroBytes < 2 ^ 64 := by
        unfold zeroBytes at *
        omega
      refine bind_congr fun key => ?_
      have hrun : (SecretboxOpen.ofPrimitives c.nacl).run = c.nacl.open? := rfl
      rw [openWatched_eq (by omega) hlt, hrun]
      cases hopen : c.nacl.open? (debase64.take nonceBytes) key (debase64.drop nonceBytes) with
      | none => rfl
      | some message =>
        have hlong := (Primitives.open_eq_some hopen).2.2
        rw [List.length_drop] at hlong
        dsimp only
        by_cases hempty : debase64.length = nonceBytes + zeroBytes
        · rw [if_pos hempty, if_neg]
          rw [hempty]
          decide
        · have hlen : (debase64.length + (2 ^ 64 - nonceBytes - 1 - zeroBytes)) % 2 ^ 64 =
              debase64.length - nonceBytes - 1 - zeroBytes := by
            unfold nonceBytes zeroBytes at *
            omega
          rw [if_neg hempty, hlen, if_pos (by omega)]

/-- What has been decoded is a nonce and a box that opens and holds no text. -/
def EmptyBox (w : World) (g : SpGlobals) (c : Crypto) (o : SecretboxOpen) (value : ZendString) : Prop :=
  ∃ debase64, c.base64.decode value = some debase64 ∧ debase64.length = nonceBytes + zeroBytes ∧
    (o.run (debase64.take nonceBytes) (environmentKey w g c) (debase64.drop nonceBytes)).isSome = true

/-- Where it returns early, the computation stays within its bounds. -/
theorem avoids_early (h : ∀ debase64, c.base64.decode value = some debase64 →
      debase64.length < nonceBytes ∨ (debase64.length + zeroBytes) % 2 ^ 64 < debase64.length) :
    Avoids .outOfBounds (decryptZval w g c value simulation hashKey) := by
  have hlog : ∀ level type fmt args,
      Avoids .outOfBounds (spLogMsgf w g "cookie_encryption" level type fmt args) :=
    fun level type fmt args => avoids_spLogMsgf w g (by decide) (by decide) _ level type fmt args
  unfold decryptZval
  cases hd : c.base64.decode value with
  | none => exact (hlog _ _ _ _).bind fun _ => avoids_pure _
  | some debase64 =>
    dsimp only
    by_cases hshort : debase64.length < nonceBytes
    · rw [if_pos hshort]
      split_ifs
      · exact (hlog _ _ _ _).bind fun _ => avoids_pure _
      · exact (hlog _ _ _ _).bind fun _ => avoids_pure _
    · rw [if_neg hshort, if_pos ((h debase64 hd).resolve_left hshort)]
      split_ifs
      · exact (hlog _ _ _ _).bind fun _ => avoids_pure _
      · exact (hlog _ _ _ _).bind fun _ => avoids_pure _

/-- What comes of a string that has passed the comparisons. -/
theorem out_decryptZvalWatched (hk : KeySet g) (hd : c.base64.decode value = some debase64)
    (hnonce : nonceBytes ≤ debase64.length) (hsize : debase64.length + zeroBytes < 2 ^ 64) :
    (decryptZvalWatched w g c o value simulation hashKey).out =
      match o.run (debase64.take nonceBytes) (environmentKey w g c) (debase64.drop nonceBytes) with
      | none => .ok (if simulation then .keep else .remove, value)
      | some message =>
        if debase64.length = nonceBytes + zeroBytes then .error .outOfBounds
        else .ok (.keep, (message.drop zeroBytes).take (debase64.length - nonceBytes - 1 - zeroBytes)) := by
  have hpassed : ¬(debase64.length < nonceBytes ∨
      (debase64.length + zeroBytes) % 2 ^ 64 < debase64.length) := by
    rw [Nat.mod_eq_of_lt hsize]
    omega
  unfold decryptZvalWatched
  rw [hd]
  dsimp only
  rw [if_neg hpassed, out_bind, generateKey_yields hk, ok_bind, openWatched_eq hnonce hsize]
  cases o.run (debase64.take nonceBytes) (environmentKey w g c) (debase64.drop nonceBytes) with
  | none =>
    cases simulation with
    | true => simp
    | false => simp
  | some message =>
    dsimp only
    split_ifs <;> rfl

/-- **The length of the new string is below zero**, if the box opens and holds no text. -/
theorem outOfBounds_of_emptyBox (hk : KeySet g) (he : EmptyBox w g c o value) :
    (decryptZvalWatched w g c o value simulation hashKey).out = .error .outOfBounds := by
  obtain ⟨debase64, hd, hlength, hopens⟩ := he
  obtain ⟨message, hopen⟩ := Option.isSome_iff_exists.mp hopens
  rw [out_decryptZvalWatched hk hd (by omega) (by rw [hlength]; decide), hopen]
  exact if_pos hlength

/-- **Every length is within its bounds**, exactly if the string is no box that opens and holds no text. -/
theorem decrypt_in_bounds_iff (hk : KeySet g) :
    Avoids .outOfBounds (decryptZvalWatched w g c o value simulation hashKey) ↔ ¬EmptyBox w g c o value := by
  refine ⟨fun h he => h (outOfBounds_of_emptyBox hk he), fun he => ?_⟩
  by_cases hearly : ∀ debase64, c.base64.decode value = some debase64 →
      debase64.length < nonceBytes ∨ (debase64.length + zeroBytes) % 2 ^ 64 < debase64.length
  · unfold decryptZvalWatched
    cases hd : c.base64.decode value with
    | none => exact avoids_early hearly
    | some debase64 =>
      dsimp only
      rw [if_pos (hearly debase64 hd)]
      exact avoids_early hearly
  · push Not at hearly
    obtain ⟨debase64, hd, hnonce, hsize⟩ := hearly
    unfold Avoids
    rw [out_decryptZvalWatched hk hd hnonce (by unfold zeroBytes at *; omega)]
    cases hopen : o.run (debase64.take nonceBytes) (environmentKey w g c) (debase64.drop nonceBytes) with
    | none => nofun
    | some message =>
      dsimp only
      rw [if_neg fun hlength => he ⟨debase64, hd, hlength, by rw [hopen]; rfl⟩]
      nofun

/-- The box of the padding alone, as anyone who has the key can make it. -/
theorem emptyBox_box (nonce : Nonce) {box : ZendString}
    (h : c.nacl.box nonce.bytes (environmentKey w g c) (List.replicate zeroBytes 0) = some box) :
    EmptyBox w g c (.ofPrimitives c.nacl) (c.base64.encode (nonce.bytes ++ box)) := by
  have hn := nonce.length_bytes
  refine ⟨_, c.base64.decode_encode _, ?_, ?_⟩
  · rw [List.length_append, hn, Primitives.length_box h, List.length_replicate]
  · rw [List.take_left' hn, List.drop_left' hn]
    show (c.nacl.open? _ _ _).isSome = true
    rw [Primitives.open_box ⟨[], rfl⟩ h]
    rfl

end Bounds

/-! ### The shortest strings -/

/-- A nonce. -/
def sevens : Nonce := ⟨List.replicate 24 7, rfl⟩

theorem decrypt_in_bounds_short :
    Avoids .outOfBounds (decryptZvalWatched (World.empty 80200) remoteAddrGlobals prefixCrypto
        (.ofPrimitives prefixCrypto.nacl) (zstr "AAAA") false none) ↔
      ¬EmptyBox (World.empty 80200) remoteAddrGlobals prefixCrypto (.ofPrimitives prefixCrypto.nacl)
        (zstr "AAAA") :=
  decrypt_in_bounds_iff ⟨rfl, rfl⟩

/-- **A nonce and the box of the padding alone**: the length of the new string is below zero. -/
theorem not_in_bounds_padding :
    ∃ box, prefixCrypto.nacl.box sevens.bytes (environmentKey (World.empty 80200) remoteAddrGlobals prefixCrypto)
        (List.replicate zeroBytes 0) = some box ∧
      ¬Avoids .outOfBounds (decryptZvalWatched (World.empty 80200) remoteAddrGlobals prefixCrypto
        (.ofPrimitives prefixCrypto.nacl) (prefixCrypto.base64.encode (sevens.bytes ++ box)) false none) := by
  refine ⟨_, Primitives.box_eq ⟨[], rfl⟩, fun h => h ?_⟩
  exact outOfBounds_of_emptyBox ⟨rfl, rfl⟩ (emptyBox_box sevens (Primitives.box_eq ⟨[], rfl⟩))

end Snuffleupagus.Crypt.Bounds
