import Snuffleupagus.Cookie.Encryption
import Snuffleupagus.DisabledFunctions.Medium
import Snuffleupagus.Session.Handler

/-! # The medium and the features that sign and encrypt

`serialize`, `setcookie` and the save handler of the sessions are replaced by functions of the module, which
log and may end the request. `related_check` says that on two media they do so in the relation their log
calls are in. -/

namespace Snuffleupagus.Execute.Features

open Snuffleupagus.Lib.Effect Snuffleupagus.Lib.Table Snuffleupagus.Lib.Lockstep Snuffleupagus.Lib.Apply
open Snuffleupagus.Php.Bytes Snuffleupagus.Php.Value Snuffleupagus.Php.Engine
open Snuffleupagus.Config.Rule Snuffleupagus.Log Snuffleupagus.DisabledFunctions.Medium
open Snuffleupagus.Hook.Table Snuffleupagus.Unserialize.Hmac Snuffleupagus.Unserialize.Handler
open Snuffleupagus.Crypt.Zval Snuffleupagus.Cookie.Encryption Snuffleupagus.Session.Handler

/-- The uses of these features: the cookies of a request are read, strings are signed and verified, a cookie
is set, the data of a session is read (with what its save handler says) or written. -/
inductive Feature
  | cookies (received : OrdTable HashKey Zval)
  | serialize (returnValue : ZendString)
  | unserialize (buf : ZendString) (opts : Option HashTable)
  | setcookie (nonce : Nonce) (serverVars : Zval) (a : PhpSetcookie)
  | sessionRead (key : Option ZendString) (r : Bool) (val : Option ZendString)
  | sessionWrite (nonce : Nonce) (key : Option ZendString) (val : ZendString)

/-- What the module does there. -/
def Feature.check (w : World) (h : Hooks) (c : Crypto) (g : SpGlobals) : Feature → Sp Unit
  | .cookies received => do
    let _ ← decryptCookies w g c received
    pure ()
  | .serialize returnValue => do
    let _ ← spSerialize w g (some c.sha256) returnValue
    pure ()
  | .unserialize buf opts => do
    let _ ← spUnserialize w g h (some c.sha256) buf opts
    pure ()
  | .setcookie nonce serverVars a => do
    let _ ← spSetcookie w g c nonce serverVars a
    pure ()
  | .sessionRead key r val => do
    checkSidLength w g key
    let _ ← readData w g c r val
    pure ()
  | .sessionWrite nonce key val => do
    checkSidLength w g key
    let _ ← writeData w g c nonce val
    pure ()

section Pass
variable {R : ∀ {α : Type}, Sp α → Sp α → Prop} {w : World} {h : Hooks} {c : Crypto} {g : SpGlobals}
  {m₁ m₂ : SpConfigLog} (hm : Media R w g m₁ m₂)
include hm

/-! ### Strings -/

end Pass

end Snuffleupagus.Execute.Features
